import Formulary.Decimal

/-! # How a double is written

Every text form of a double shows the same shortest digits and differs only in the choices recorded
here: where positional notation ends, whether a whole number keeps `.0`, the sign of an exponent.
-/

namespace Formulary.Decimal

/-- The choices of one text form. -/
structure Layout where
  /-- Whether a number whose leading digit stands at `10 ^ e` is written positionally. -/
  positional : Int → Bool
  /-- Whether a positional number without a fraction ends in `.0`. -/
  wholePoint : Bool
  /-- Whether a positive exponent carries a sign. -/
  plus : Bool
  tie : Tie

namespace Layout

/-- Source text of a constant: never an exponent, always a point. -/
def literal : Layout := ⟨fun _ => true, true, false, .up⟩

/-- Text inside strings and messages: never an exponent, no point on whole numbers. -/
def plain : Layout := ⟨fun _ => true, false, false, .up⟩

/-- Diagnostic text: positional from `0.0001` up to below `10 ^ 16`. -/
def diagnostic : Layout := ⟨fun e => decide (-4 ≤ e ∧ e < 16), true, false, .up⟩

/-- JSON text: positional from `0.00001` up to below `10 ^ 16`, exponents signed. -/
def json : Layout := ⟨fun e => decide (-5 ≤ e ∧ e < 16), true, true, .even⟩

/-- Digits with the point after the first `point` of them, zeros filled in on either side. -/
def positionalText (wholePoint : Bool) (digits : List Char) (point : Int) : List Char :=
  let size : Int := digits.length
  if point ≤ 0 then '0' :: '.' :: (List.replicate (-point).toNat '0' ++ digits)
  else if size ≤ point then
    digits ++ List.replicate (point - size).toNat '0' ++ (if wholePoint then ['.', '0'] else [])
  else digits.take point.toNat ++ '.' :: digits.drop point.toNat

/-- Digits with the point after the first, and an exponent. -/
def exponentText (plus : Bool) (digits : List Char) (exponent : Int) : List Char :=
  let mantissa := match digits with
    | first :: rest@(_ :: _) => first :: '.' :: rest
    | short => short
  let sign := if exponent < 0 then ['-'] else if plus then ['+'] else []
  mantissa ++ 'e' :: sign ++ Nat.toDigits 10 exponent.natAbs

/-- The text of a positive number. -/
def magnitude (layout : Layout) (b : Binary) : List Char :=
  let decimal := shortest layout.tie b
  let exponent := decimal.scientificExponent
  if layout.positional exponent then
    positionalText layout.wholePoint decimal.digits (exponent + 1)
  else exponentText layout.plus decimal.digits exponent

/-- The text of a double; infinities and NaN have names. -/
def text (layout : Layout) (x : Float) : List Char :=
  match Binary.ofFloat? x with
  | none => if x.isNaN then "NaN".toList else if x < 0 then "-inf".toList else "inf".toList
  | some b =>
    let sign := if b.negative then ['-'] else []
    if b.mantissa = 0 then sign ++ '0' :: (if layout.wholePoint then ['.', '0'] else [])
    else sign ++ layout.magnitude b

end Layout

end Formulary.Decimal
