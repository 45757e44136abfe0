import Formulary.Value.Text

/-! # Values and JSON documents

Scalars are values of their own; arrays and objects become handles and stay whole inside them. A
document turned into a value and back is the same document, but for whole numbers past the signed
integers.
-/

namespace Formulary.Value

/-- The value of a document. A container becomes a handle with the given serial; a whole number
beyond the signed integers becomes a double. -/
def ofJson (serial : Nat) : Json → Value
  | .null => null
  | .bool b => bool b
  | .number (.natural n) => if n.toNat < Nat.pow 2 63 then int n.toInt64 else float n.toFloat
  | .number (.negative i) => int i
  | .number (.double x) => float x
  | .string s => string s
  | document => object (.node serial document)

/-- The document of a value. What JSON has no form for becomes `null`, a foreign object its text. -/
def toJson : Value → Json
  | unknown => .null
  | null => .null
  | bool b => .bool b
  | int i => .number (.ofInt64 i)
  | float x => if x.isNaN || x.isInf then .null else .number (.double x)
  | string s => .string s
  | object (.node _ document) => document
  | object handle => .string handle.text

end Formulary.Value
