import Formulary.Formula
import Formulary.Value.Text

/-! # Formulas as text

Source text with normal spacing, which reads back as the same tree, and an outline of the tree.
-/

namespace Formulary

/-- Punctuation of the ASCII range. -/
def isPunctuation (c : Char) : Bool :=
  let n := c.toNat
  decide (33 ≤ n ∧ n ≤ 47 ∨ 58 ≤ n ∧ n ≤ 64 ∨ 91 ≤ n ∧ n ≤ 96 ∨ 123 ≤ n ∧ n ≤ 126)

namespace Operator

/-- Whether a prefix symbol has to be kept apart from its operand: two symbols could read as one
longer one, and a minus sign before a digit belongs to the number. -/
def needsSeparator (symbol operand : String) : Bool :=
  match operand.toList with
  | [] => false
  | c :: _ =>
    (isPunctuation c && !(['(', '#', '\'', '"', '_'].contains c)) ||
      (symbol.toList.getLast? == some '-' && c.isDigit)

/-- Texts separated by commas. -/
def commaList (texts : List String) : String := ", ".intercalate texts

/-- The text of a node, from the texts of its operands. -/
def arrange (op : Operator) (operands : List String) : String :=
  match op.form, operands with
  | .dot, [target, member] => target ++ "." ++ member
  | .parenthesis, [inner] => "(" ++ inner ++ ")"
  | .functionCall, name :: args => name ++ "(" ++ commaList args ++ ")"
  | .methodCall, target :: method :: args =>
    target ++ "." ++ method ++ "(" ++ commaList args ++ ")"
  | .indexer, target :: indices => target ++ "[" ++ commaList indices ++ "]"
  | _, [operand] =>
    if needsSeparator op.symbol operand then op.symbol ++ " " ++ operand else op.symbol ++ operand
  | _, [left, right] => left ++ " " ++ op.symbol ++ " " ++ right
  | _, _ => "<malformed " ++ op.symbol ++ ">"

end Operator

namespace Formula

mutual

/-- Source text with normal spacing. -/
def text : Formula → String
  | constant value => value.literal
  | identifier name => name
  | precompiled expression => "#" ++ expression.name
  | apply operator _ operands => operator.arrange (texts operands)

def texts : List Formula → List String
  | [] => []
  | operand :: rest => text operand :: texts rest

end

mutual

/-- The tree for diagnosis. -/
def outline : Formula → Text.Outline
  | constant value => .record "Expression" [("kind", .tagged "Constant" [value.outline])]
  | identifier name =>
    .record "Expression" [("kind", .tagged "Variable" [.leaf (Text.quoted name)])]
  | precompiled expression =>
    .record "Expression" [("kind", .tagged "Precompiled" [.leaf expression.diagnostic])]
  | apply operator native operands =>
    let kind := [("kind", Text.Outline.tagged "Operator" [.leaf operator.diagnostic])]
    let operands :=
      match operands with
      | [] => []
      | operands@(_ :: _) => [("operands", Text.Outline.list (outlines operands))]
    let binding :=
      match native with
      | none => []
      | some native => [("native", Text.Outline.leaf native.diagnostic)]
    .record "Expression" (kind ++ operands ++ binding)

def outlines : List Formula → List Text.Outline
  | [] => []
  | operand :: rest => outline operand :: outlines rest

end

end Formula

end Formulary
