import Formulary.FunctionTable

/-! # The built-in functions

All of them answer `unknown` for arguments of the wrong number or type.
-/

namespace Formulary

namespace Value

/-- Whether the order of two values is known and accepted. -/
def isOrdered (accepts : Ordering → Bool) (v w : Value) : Bool :=
  match v.compare? w with
  | some ordering => accepts ordering
  | none => false

/-- Goes through numbers from left to right and keeps the best one so far as long as `keep` says so.
-/
def extremeFrom (keep : Value → Value → Bool) (best : Value) : List Value → Option Value
  | [] => some best
  | candidate :: rest =>
    if candidate.isNumeric then
      extremeFrom keep (if keep best candidate then best else candidate) rest
    else none

/-- The extreme of numbers: an integer if all of them are, and a double otherwise. -/
def extreme (keep : Value → Value → Bool) : List Value → Value
  | [] => unknown
  | first :: rest =>
    if first.isNumeric then
      match extremeFrom keep first rest with
      | none => unknown
      | some best =>
        if (first :: rest).all isInt then best
        else match best.toFloat? with
          | some x => float x
          | none => unknown
    else unknown

/-- The least number; of equal ones the first. -/
def minimum : List Value → Value := extreme (isOrdered Ordering.isLE)

/-- The greatest number; of equal ones the first. -/
def maximum : List Value → Value := extreme (isOrdered Ordering.isGE)

/-- The number without its sign; the least integer stays as it is. -/
def absolute : List Value → Value
  | [int i] => int (if i < 0 then -i else i)
  | [float x] => float x.abs
  | _ => unknown

/-- Rounds a double by `round`, to an integer if one has that value. -/
def rounded (round : Float → Float) : List Value → Value
  | [int i] => int i
  | [float x] =>
    let y := round x
    if y ≥ -9223372036854775808.0 && y < 9223372036854775808.0 then int y.toInt64 else float y
  | _ => unknown

def squareRoot : List Value → Value
  | [v] => match v.toFloat? with
    | some x => float x.sqrt
    | none => unknown
  | _ => unknown

variable {φ ε : Type}

/-- An integer brought between two others. -/
def boundInt (x low high : Int64) : Int64 :=
  if x < low then low else if high < x then high else x

/-- A double brought between two others; a NaN stays one. -/
def boundFloat (x low high : Float) : Float :=
  let x := if x < low then low else x
  if high < x then high else x

/-- Brings an integer between two bounds, and breaks off if they are out of order. -/
def clampInts (x low high : Int64) : Routine φ ε Int64 :=
  if low ≤ high then .done (boundInt x low high)
  else .panic (some "assertion failed: min <= max")

theorem clampInts_of_le (x : Int64) {low high : Int64} (h : low ≤ high) :
    (clampInts x low high : Routine φ ε Int64) = .done (boundInt x low high) := if_pos h

/-- Brings a double between two bounds, and breaks off if they are out of order or one of them is a
NaN. -/
def clampFloats (x low high : Float) : Routine φ ε Float :=
  if low ≤ high then .done (boundFloat x low high)
  else
    let text (bound : Float) := String.ofList (Decimal.Layout.diagnostic.text bound)
    .panic (some ("min > max, or either was NaN. min = " ++ text low ++ ", max = " ++ text high))

theorem clampFloats_of_le (x : Float) {low high : Float} (h : low ≤ high) :
    (clampFloats x low high : Routine φ ε Float) = .done (boundFloat x low high) := if_pos h

/-- Brings a number between two bounds, all of them as doubles. -/
def clampPromoted (v low high : Value) : Routine φ EvalError Value :=
  match v.toFloat?, low.toFloat?, high.toFloat? with
  | some x, some low, some high =>
    if low ≤ high then (clampFloats x low high).bind fun y => .done (float y) else .done unknown
  | _, _, _ => .done unknown

/-- A number brought between two bounds; `unknown` unless the bounds are in order. -/
def clamp : List Value → Routine φ EvalError Value
  | [int x, int low, int high] =>
    if low ≤ high then (clampInts x low high).bind fun y => .done (int y) else .done unknown
  | [v, low, high] => clampPromoted v low high
  | _ => .done unknown

/-- The second argument if the first counts as true, and the third otherwise. -/
def choose : List Value → Value
  | [condition, whenTrue, whenFalse] => if condition.truthy then whenTrue else whenFalse
  | _ => unknown

end Value

namespace FunctionTable

/-- The built-in functions. -/
def builtinFunctions : List (Native Formula) :=
  [.pure "min" Value.minimum, .pure "max" Value.maximum, .pure "abs" Value.absolute,
   .pure "floor" (Value.rounded Float.floor), .pure "ceil" (Value.rounded Float.ceil),
   .pure "round" (Value.rounded Float.round), .pure "sqrt" Value.squareRoot,
   ⟨"clamp", fun args _ => Value.clamp args⟩, .pure "iif" Value.choose]

/-- The built-in constants. -/
def builtinPrecompiled : List (Precompiled Formula) :=
  [.constant "pi" (.float 3.141592653589793), .constant "e" (.float 2.718281828459045)]

/-- The table of the built-in functions and constants. -/
def standard : FunctionTable :=
  builtinPrecompiled.foldl registerPrecompiled (builtinFunctions.foldl registerFunction empty)

end FunctionTable

end Formulary
