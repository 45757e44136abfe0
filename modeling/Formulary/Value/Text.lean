import Formulary.Value
import Formulary.Decimal.Layout
import Formulary.Text.Quoted
import Formulary.Text.Outline

/-! # Values as text

The literal is source text; the plain text is what concatenation and messages show; the outline is
for diagnosis.
-/

namespace Formulary

open Decimal

/-- An object in any text. -/
def Handle.text (handle : Handle) : String := "<object " ++ handle.kind ++ ">"

namespace Value

def boolText (b : Bool) : String := if b then "true" else "false"

def intText (i : Int64) : String := toString i.toInt

/-- A string between quotes that do not occur in it, single ones if it holds double ones. -/
def stringLiteral (s : String) : String :=
  if s.toList.contains '"' then "'" ++ s ++ "'" else "\"" ++ s ++ "\""

/-- The value as source text. -/
def literal : Value → String
  | unknown => "unknown"
  | null => "null"
  | bool b => boolText b
  | int i => intText i
  | float x => String.ofList (Layout.literal.text x)
  | string s => stringLiteral s
  | object handle => handle.text

/-- The value as it appears inside a text. -/
def plainText : Value → String
  | unknown => "unknown"
  | null => "null"
  | bool b => boolText b
  | int i => intText i
  | float x => String.ofList (Layout.plain.text x)
  | string s => s
  | object handle => handle.text

/-- The value for diagnosis, with its variant. -/
def outline : Value → Text.Outline
  | unknown => .leaf "Unknown"
  | null => .leaf "Null"
  | bool b => .tagged "Bool" [.leaf (boolText b)]
  | int i => .tagged "Int" [.leaf (intText i)]
  | float x => .tagged "Float" [.leaf (String.ofList (Layout.diagnostic.text x))]
  | string s => .tagged "String" [.leaf (Text.quoted s)]
  | object handle => .tagged "Object" [.leaf ("ObjectRef(" ++ handle.kind ++ ")")]

/-- Values as literals, separated by commas. -/
def literals (values : List Value) : String := ", ".intercalate (values.map literal)

end Value

end Formulary
