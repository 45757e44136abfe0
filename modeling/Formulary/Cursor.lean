import Formulary.Value
import Formulary.Decimal

/-! # Tokens

A cursor walks over a text, counted in bytes. Every token reader either takes a whole token, as long
as it can be, or takes nothing. A cursor can be moved to the middle of a character; no token starts
there.
-/

namespace Formulary

/-- How many bytes the characters take up. -/
def byteLength (cs : List Char) : Nat := cs.foldr (fun c bytes => c.utf8Size + bytes) 0

/-- A place in a text. -/
structure Cursor where
  /-- How many bytes lie before the cursor. -/
  position : Nat
  /-- The characters that do not lie before the cursor as a whole. -/
  rest : List Char
  /-- How many bytes of the first of these lie before the cursor. -/
  inside : Nat := 0
deriving DecidableEq, Repr

/-- Blanks between tokens. -/
def isBlank (c : Char) : Bool := c == ' ' || c == '\t'

/-- A letter or underscore of the ASCII range. -/
def isNameStart (c : Char) : Bool := c.isAlpha || c == '_'

/-- What may follow the first character of a name. -/
def isNamePart (c : Char) : Bool := c.isAlphanum || c == '_'

/-- The value of a run of digits: an integer if it has sixty-four bits, and the nearest double
otherwise. -/
def integerValue (negative : Bool) (digits : List Char) : Value :=
  let magnitude : Int := digitsValue digits
  let i := if negative then -magnitude else magnitude
  if Int64.minValue.toInt ≤ i ∧ i ≤ Int64.maxValue.toInt then .int (Int64.ofInt i)
  else .float (readDecimal negative digits [])

namespace Cursor

/-- The start of a text. -/
def start (text : String) : Cursor := ⟨0, text.toList, 0⟩

/-- Nothing is left. -/
def atEnd (c : Cursor) : Bool := c.rest.isEmpty

/-- The character under the cursor, unless the cursor is inside it. -/
def peek? (c : Cursor) : Option Char := if c.inside = 0 then c.rest.head? else none

/-- The byte under the cursor. -/
def byte? (c : Cursor) : Option UInt8 :=
  c.rest.head?.bind fun x => (String.utf8EncodeChar x)[c.inside]?

/-- Where `n` bytes into the characters lies: the bytes passed, the characters left, and the bytes
of the first of these that were passed. -/
def passBytes : Nat → List Char → Nat × List Char × Nat
  | _, [] => (0, [], 0)
  | n, c :: rest =>
    if c.utf8Size ≤ n then
      let (passed, left, inside) := passBytes (n - c.utf8Size) rest
      (c.utf8Size + passed, left, inside)
    else (n, c :: rest, n)

/-- Moves `n` bytes on, at most to the end. -/
def advance (c : Cursor) (n : Nat) : Cursor :=
  let (passed, left, inside) := passBytes (c.inside + n) c.rest
  ⟨c.position + passed - c.inside, left, inside⟩

/-- The cursor at a byte offset of a text. -/
def seek (text : String) (position : Nat) : Cursor := (start text).advance position

/-- Moves past the characters that stand under the cursor. -/
def past (c : Cursor) (taken : List Char) : Cursor :=
  ⟨c.position + byteLength taken, c.rest.drop taken.length, 0⟩

/-- Takes one character if it is the one under the cursor. -/
def eat? (c : Cursor) (x : Char) : Option Cursor :=
  if c.peek? = some x then some (c.past [x]) else none

/-- Moves past blanks. -/
def skipBlanks (c : Cursor) : Cursor :=
  if c.inside = 0 then c.past (c.rest.takeWhile isBlank) else c

/-- The text of a name: a letter or underscore, then letters, digits and underscores. -/
def identifier? (c : Cursor) : Option (String × Cursor) :=
  match c.peek? with
  | none => none
  | some x =>
    if isNameStart x then
      let name := c.rest.takeWhile isNamePart
      some (String.ofList name, c.past name)
    else none

/-- A number: an optional minus sign, digits, and a fraction if a digit follows the point. -/
def number? (c : Cursor) : Option (Value × Cursor) :=
  if c.inside ≠ 0 then none
  else
    let negative := c.rest.head? == some '-'
    let sign := if negative then ['-'] else []
    let whole := (c.rest.drop sign.length).takeWhile Char.isDigit
    if whole.isEmpty then none
    else
      let integer := some (integerValue negative whole, c.past (sign ++ whole))
      match c.rest.drop (sign.length + whole.length) with
      | '.' :: rest =>
        let fraction := rest.takeWhile Char.isDigit
        if fraction.isEmpty then integer
        else
          some (.float (readDecimal negative whole fraction),
            c.past (sign ++ whole ++ '.' :: fraction))
      | _ => integer

/-- A string between two equal quotes, single or double; there are no escapes. -/
def quotedString? (c : Cursor) : Option (String × Cursor) :=
  match c.peek? with
  | none => none
  | some quote =>
    if quote = '\'' ∨ quote = '"' then
      let content := (c.rest.drop 1).takeWhile (· != quote)
      match c.rest.drop (1 + content.length) with
      | [] => none
      | _ :: _ => some (String.ofList content, c.past (quote :: content ++ [quote]))
    else none

end Cursor

end Formulary
