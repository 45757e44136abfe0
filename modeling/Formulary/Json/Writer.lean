import Formulary.Json
import Formulary.Decimal.Layout

/-! # Documents as JSON text

Two forms: without any blank, and indented by two with one item per line.
-/

namespace Formulary.Json

/-- A character inside a string: controls, quotes and backslashes are escaped, nothing else. -/
def escape (c : Char) : List Char :=
  match c with
  | '"' => ['\\', '"']
  | '\\' => ['\\', '\\']
  | '\x08' => ['\\', 'b']
  | '\x0c' => ['\\', 'f']
  | '\n' => ['\\', 'n']
  | '\r' => ['\\', 'r']
  | '\t' => ['\\', 't']
  | c =>
    if c.toNat < 0x20 then
      ['\\', 'u', '0', '0', Nat.digitChar (c.toNat / 16), Nat.digitChar (c.toNat % 16)]
    else [c]

/-- A string between quotes. -/
def quoted (s : String) : String := String.ofList ('"' :: s.toList.flatMap escape ++ ['"'])

/-- The text of a number. Doubles that JSON has no text for are written as `null`. -/
def Number.text : Number → String
  | .natural n => toString n.toNat
  | .negative i => toString i.toInt
  | .double x =>
    if x.isNaN || x.isInf then "null" else String.ofList (Decimal.Layout.json.text x)

mutual

/-- The text without blanks. -/
def compact : Json → String
  | null => "null"
  | bool b => if b then "true" else "false"
  | number n => n.text
  | string s => quoted s
  | array items => "[" ++ ",".intercalate (compactItems items) ++ "]"
  | object fields => "\x7b" ++ ",".intercalate (compactFields fields) ++ "\x7d"

def compactItems : List Json → List String
  | [] => []
  | item :: rest => compact item :: compactItems rest

def compactFields : List (String × Json) → List String
  | [] => []
  | (name, item) :: rest => (quoted name ++ ":" ++ compact item) :: compactFields rest

end

/-- Items on lines of their own between delimiters, indented one step deeper than `depth`. -/
def block (depth : Nat) (opener closer : String) (items : List String) : String :=
  let line (n : Nat) := "\n" ++ String.join (List.replicate n "  ")
  opener ++ ",".intercalate (items.map (line (depth + 1) ++ ·)) ++ line depth ++ closer

mutual

/-- The indented text of a document that stands at the given depth. -/
def prettyAt (depth : Nat) : Json → String
  | null => "null"
  | bool b => if b then "true" else "false"
  | number n => n.text
  | string s => quoted s
  | array [] => "[]"
  | array (item :: rest) =>
    block depth "[" "]" (prettyAt (depth + 1) item :: prettyItems (depth + 1) rest)
  | object [] => "\x7b\x7d"
  | object (field :: rest) =>
    block depth "\x7b" "\x7d" (prettyField (depth + 1) field :: prettyFields (depth + 1) rest)

def prettyItems (depth : Nat) : List Json → List String
  | [] => []
  | item :: rest => prettyAt depth item :: prettyItems depth rest

def prettyField (depth : Nat) : String × Json → String
  | (name, item) => quoted name ++ ": " ++ prettyAt depth item

def prettyFields (depth : Nat) : List (String × Json) → List String
  | [] => []
  | field :: rest => prettyField depth field :: prettyFields depth rest

end

/-- The indented text. -/
def pretty (document : Json) : String := prettyAt 0 document

end Formulary.Json
