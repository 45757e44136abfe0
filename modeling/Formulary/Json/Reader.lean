import Formulary.Json

/-! # Documents from JSON text

A strict reader of one document. Three limits are part of the format read here: at most 127 arrays
and objects inside one another, whole numbers of sixty-four bits, and doubles that are not infinite.
A number with a fraction, an exponent or too many digits is scaled by powers of ten from as many of
its leading digits as sixty-four bits hold, so its last bit may differ from the nearest double's.

Readers take the characters that remain and give the value read with those left over.
-/

namespace Formulary.Json

/-- A reader of part of a text. -/
abbrev Reader (α : Type) := List Char → Option (α × List Char)

/-- The remaining characters without leading white space. -/
def skipSpace (cs : List Char) : List Char :=
  cs.dropWhile fun c => c == ' ' || c == '\n' || c == '\t' || c == '\r'

/-- Reads one fixed word. -/
def word (text : List Char) : Reader Unit := fun cs =>
  if text.isPrefixOf cs then some ((), cs.drop text.length) else none

/-! ## Strings -/

def hexDigit? (c : Char) : Option Nat :=
  if '0' ≤ c ∧ c ≤ '9' then some (c.toNat - '0'.toNat)
  else if 'a' ≤ c ∧ c ≤ 'f' then some (c.toNat - 'a'.toNat + 10)
  else if 'A' ≤ c ∧ c ≤ 'F' then some (c.toNat - 'A'.toNat + 10)
  else none

/-- Four hexadecimal digits. -/
def hexQuad : Reader Nat
  | a :: b :: c :: d :: rest => do
    let high := (← hexDigit? a) * 16 + (← hexDigit? b)
    let low := (← hexDigit? c) * 16 + (← hexDigit? d)
    return (high * 256 + low, rest)
  | _ => none

/-- The escapes of one character. -/
def simpleEscape? : Char → Option Char
  | '"' => some '"'
  | '\\' => some '\\'
  | '/' => some '/'
  | 'b' => some '\x08'
  | 'f' => some '\x0c'
  | 'n' => some '\n'
  | 'r' => some '\r'
  | 't' => some '\t'
  | _ => none

/-- A code unit after `\u`. A leading surrogate needs its trailing one; neither may stand alone. -/
def unicodeEscape : Reader Char := fun cs => do
  let (unit, rest) ← hexQuad cs
  if 0xdc00 ≤ unit ∧ unit ≤ 0xdfff then none
  else if 0xd800 ≤ unit ∧ unit ≤ 0xdbff then
    match rest with
    | '\\' :: 'u' :: rest =>
      let (low, rest) ← hexQuad rest
      if 0xdc00 ≤ low ∧ low ≤ 0xdfff then
        some (Char.ofNat (0x10000 + (unit - 0xd800) * 0x400 + (low - 0xdc00)), rest)
      else none
    | _ => none
  else some (Char.ofNat unit, rest)

/-- The characters of a string up to its closing quote. Control characters have to be escaped. The
first argument bounds the number of characters. -/
def stringBody : Nat → Reader (List Char)
  | 0, _ => none
  | _ + 1, [] => none
  | fuel + 1, c :: rest =>
    if c = '"' then some ([], rest)
    else if c = '\\' then
      match rest with
      | 'u' :: rest => do
        let (x, rest) ← unicodeEscape rest
        let (xs, rest) ← stringBody fuel rest
        return (x :: xs, rest)
      | e :: rest => do
        let x ← simpleEscape? e
        let (xs, rest) ← stringBody fuel rest
        return (x :: xs, rest)
      | [] => none
    else if c.toNat < 0x20 then none
    else do
      let (xs, rest) ← stringBody fuel rest
      return (c :: xs, rest)

/-- A string after its opening quote. -/
def stringAfterQuote : Reader String := fun cs => do
  let (chars, rest) ← stringBody (cs.length + 1) cs
  return (String.ofList chars, rest)

/-! ## Numbers -/

/-- The parts of a number as it is written. -/
structure Numeral where
  negative : Bool
  whole : List Char
  /-- The digits after the point, if there is one. -/
  fraction : Option (List Char)
  /-- Whether the exponent is below zero, and its digits. -/
  exponent : Option (Bool × List Char)

/-- At least one digit. -/
def digits1 : Reader (List Char) := fun cs =>
  match cs.takeWhile Char.isDigit with
  | [] => none
  | digits => some (digits, cs.dropWhile Char.isDigit)

/-- Digits without a needless leading zero. -/
def wholeDigits : Reader (List Char) := fun cs => do
  let (whole, rest) ← digits1 cs
  match whole with
  | '0' :: _ :: _ => none
  | _ => return (whole, rest)

def fractionDigits : Reader (Option (List Char))
  | '.' :: rest => do
    let (digits, rest) ← digits1 rest
    return (some digits, rest)
  | cs => some (none, cs)

def exponentDigits : Reader (Option (Bool × List Char))
  | c :: rest =>
    if c = 'e' ∨ c = 'E' then do
      let (negative, rest) := match rest with
        | '+' :: rest => (false, rest)
        | '-' :: rest => (true, rest)
        | rest => (false, rest)
      let (digits, rest) ← digits1 rest
      return (some (negative, digits), rest)
    else some (none, c :: rest)
  | [] => some (none, [])

/-- The longest number at the start of the text. -/
def numeral : Reader Numeral := fun cs => do
  let (negative, cs) := match cs with
    | '-' :: rest => (true, rest)
    | cs => (false, cs)
  let (whole, cs) ← wholeDigits cs
  let (fraction, cs) ← fractionDigits cs
  let (exponent, cs) ← exponentDigits cs
  return (⟨negative, whole, fraction, exponent⟩, cs)

/-- Leading digits gathered into sixty-four bits: the number they make and the digits that no longer
fit, from the first one that would overflow. -/
def gather : Nat → List Char → Nat × List Char
  | n, [] => (n, [])
  | n, c :: rest =>
    let next := 10 * n + (c.toNat - '0'.toNat)
    if next < Nat.pow 2 64 then gather next rest else (n, c :: rest)

/-- `significand * 10 ^ exponent` by one multiplication or by divisions; nothing when it would be
infinite. The first argument bounds the number of divisions by `10 ^ 308`. -/
def scaled : Nat → Float → Int → Option Float
  | 0, x, _ => some x
  | fuel + 1, x, exponent =>
    if exponent.natAbs ≤ 308 then
      let power := Float.ofScientific 1 false exponent.natAbs
      if 0 ≤ exponent then
        let y := x * power
        if y.isInf then none else some y
      else some (x / power)
    else if x == 0 then some x
    else if 0 ≤ exponent then none
    else scaled fuel (x / 1e308) (exponent + 308)

/-- The exponents that can be told apart; those beyond have the effect of the end they pass. -/
def exponentLimit : Nat := Nat.pow 2 31 - 1

/-- The double of a number that is not whole or does not fit. Dividing four times by `10 ^ 308`
leaves nothing of any number. -/
def Numeral.double? (n : Numeral) : Option Float := do
  let (wholeValue, dropped) := gather 0 n.whole
  let (significand, kept) := match n.fraction with
    | none => (wholeValue, 0)
    | some digits =>
      let (value, rest) := gather wholeValue digits
      (value, digits.length - rest.length)
  let start : Int := (dropped.length : Int) - kept
  let magnitude ← match n.exponent with
    | none => scaled 6 significand.toUInt64.toFloat start
    | some (below, digits) =>
      let value := digitsValue digits
      if exponentLimit < value then
        if significand ≠ 0 ∧ !below then none else some 0
      else
        let exponent := if below then start - value else start + value
        scaled 6 significand.toUInt64.toFloat exponent
  return if n.negative then -magnitude else magnitude
where
  digitsValue (digits : List Char) : Nat :=
    digits.foldl (fun value digit => 10 * value + (digit.toNat - '0'.toNat)) 0

/-- The number of a numeral. A whole number below the least signed integer becomes a double, and so
does a negative zero. -/
def Numeral.number? (n : Numeral) : Option Number :=
  let (value, dropped) := gather 0 n.whole
  if n.fraction.isSome || n.exponent.isSome || !dropped.isEmpty then n.double?.map .double
  else if !n.negative then some (.natural (UInt64.ofNat value))
  else if 0 < value ∧ value ≤ Nat.pow 2 63 then some (.negative (Int64.ofInt (-value)))
  else some (.double (-(UInt64.ofNat value).toFloat))

/-! ## Arrays and objects -/

section Containers

variable {σ : Type}

/-- The items of an array after the first bracket, threaded through a state. -/
def items (item : σ → Reader σ) : Nat → σ → Reader σ
  | 0, _, _ => none
  | fuel + 1, state, cs => do
    let (state, rest) ← item state (skipSpace cs)
    match skipSpace rest with
    | ',' :: rest => items item fuel state rest
    | ']' :: rest => some (state, rest)
    | _ => none

/-- An array after its first bracket. -/
def arrayBody (item : σ → Reader σ) (start : σ) : Reader σ := fun cs =>
  match skipSpace cs with
  | ']' :: rest => some (start, rest)
  | rest => items item (rest.length + 1) start rest

/-- The members of an object after the first brace, threaded through a state. -/
def members (member : String → σ → Reader σ) : Nat → σ → Reader σ
  | 0, _, _ => none
  | fuel + 1, state, cs =>
    match skipSpace cs with
    | '"' :: rest => do
      let (name, rest) ← stringAfterQuote rest
      match skipSpace rest with
      | ':' :: rest =>
        let (state, rest) ← member name state (skipSpace rest)
        match skipSpace rest with
        | ',' :: rest => members member fuel state rest
        | '\x7d' :: rest => some (state, rest)
        | _ => none
      | _ => none
    | _ => none

/-- An object after its first brace. -/
def objectBody (member : String → σ → Reader σ) (start : σ) : Reader σ := fun cs =>
  match skipSpace cs with
  | '\x7d' :: rest => some (start, rest)
  | rest => members member (rest.length + 1) start rest

end Containers

/-! ## Documents -/

/-- Reads a document that is not an array or an object. -/
def scalar : Reader Json := fun cs =>
  match cs with
  | 'n' :: _ => (word "null".toList cs).map fun (_, rest) => (null, rest)
  | 't' :: _ => (word "true".toList cs).map fun (_, rest) => (bool true, rest)
  | 'f' :: _ => (word "false".toList cs).map fun (_, rest) => (bool false, rest)
  | '"' :: rest => (stringAfterQuote rest).map fun (s, rest) => (string s, rest)
  | _ => do
    let (n, rest) ← numeral cs
    return (number (← n.number?), rest)

/-- Reads a document with at most `depth` arrays and objects inside one another. -/
def value : Nat → Reader Json
  | 0, cs =>
    match cs with
    | '[' :: _ => none
    | '\x7b' :: _ => none
    | _ => scalar cs
  | depth + 1, cs =>
    match cs with
    | '[' :: rest => do
      let (reversed, rest) ← arrayBody (fun done cs => do
        let (item, rest) ← value depth cs
        return (item :: done, rest)) [] rest
      return (array reversed.reverse, rest)
    | '\x7b' :: rest => do
      let (fields, rest) ← objectBody (fun name fields cs => do
        let (item, rest) ← value depth cs
        return (insertField name item fields, rest)) [] rest
      return (object fields, rest)
    | _ => scalar cs

/-- How many arrays and objects may stand inside one another. -/
def nestingLimit : Nat := 127

/-- Applies a reader to a whole text, with white space on either side. -/
def whole? {α : Type} (reader : Reader α) (text : String) : Option α := do
  let (result, rest) ← reader (skipSpace text.toList)
  if (skipSpace rest).isEmpty then some result else none

/-- The document that a text holds. -/
def parse? (text : String) : Option Json := whole? (value nestingLimit) text

/-! ## Skipping

A member that nobody asks for only has to be well formed: its numbers may be of any size, its
strings may hold half a surrogate pair and its containers may be nested to any depth. -/

/-- Skips the rest of a string after its opening quote. -/
def skipString : Nat → Reader Unit
  | 0, _ => none
  | _ + 1, [] => none
  | fuel + 1, c :: rest =>
    if c = '"' then some ((), rest)
    else if c = '\\' then
      match rest with
      | 'u' :: rest => do
        let (_, rest) ← hexQuad rest
        skipString fuel rest
      | e :: rest => do
        let _ ← simpleEscape? e
        skipString fuel rest
      | [] => none
    else if c.toNat < 0x20 then none
    else skipString fuel rest

/-- The members of an object whose names are skipped like any string. -/
def skipMembers (item : Reader Unit) : Nat → Reader Unit
  | 0, _ => none
  | fuel + 1, cs =>
    match skipSpace cs with
    | '"' :: rest => do
      let (_, rest) ← skipString (rest.length + 1) rest
      match skipSpace rest with
      | ':' :: rest =>
        let (_, rest) ← item (skipSpace rest)
        match skipSpace rest with
        | ',' :: rest => skipMembers item fuel rest
        | '\x7d' :: rest => some ((), rest)
        | _ => none
      | _ => none
    | _ => none

/-- Skips one document of at most `fuel` levels. -/
def skipValue : Nat → Reader Unit
  | 0, _ => none
  | fuel + 1, cs =>
    match cs with
    | '[' :: rest => arrayBody (fun _ cs => skipValue fuel cs) () rest
    | '\x7b' :: rest =>
      match skipSpace rest with
      | '\x7d' :: rest => some ((), rest)
      | rest => skipMembers (fun cs => skipValue fuel cs) (rest.length + 1) rest
    | 'n' :: _ => word "null".toList cs
    | 't' :: _ => word "true".toList cs
    | 'f' :: _ => word "false".toList cs
    | '"' :: rest => skipString (rest.length + 1) rest
    | _ => (numeral cs).map fun (_, rest) => ((), rest)

/-- Skips one document. -/
def skip : Reader Unit := fun cs => skipValue (cs.length + 1) cs

end Formulary.Json
