import Formulary.Operator
import Formulary.Routine

/-! # Formulas

A formula is a tree. What the operands of an operator mean depends on its form:

* member access: the target, then an identifier;
* function call: an identifier, then the arguments;
* method call: the target, an identifier, then the arguments;
* indexing: the target, then at least one index;
* grouping and the logging operators: one operand;
* conjunction and disjunction: two; the generic form: one or two.

A tree put together by hand may break these rules; reading a text never does.
-/

namespace Formulary

/-- A formula. -/
inductive Formula where
  | constant (value : Value)
  | identifier (name : String)
  /-- An expression from the table of precompiled ones. -/
  | precompiled (expression : Precompiled Formula)
  /-- An operator, the native function it was bound to if it is a function call, and its operands.
  -/
  | apply (operator : Operator) (native : Option (Native Formula)) (operands : List Formula)

instance : Inhabited Formula := ⟨.constant .unknown⟩

namespace Formula

/-- An operator node without a native function. -/
def node (operator : Operator) (operands : List Formula) : Formula := apply operator none operands

/-- The name of an identifier. -/
def identifier? : Formula → Option String
  | identifier name => some name
  | _ => none

/-- The form of an operator node. -/
def form? : Formula → Option Form
  | apply operator _ _ => some operator.form
  | _ => none

def operands : Formula → List Formula
  | apply _ _ operands => operands
  | _ => []

/-- The node reached by following operand positions from the root. -/
def descendant? : Formula → List Nat → Option Formula
  | f, [] => some f
  | f, i :: path =>
    match f.operands[i]? with
    | some operand => operand.descendant? path
    | none => none

mutual

/-- The number of nodes on the longest way from the root. -/
def depth : Formula → Nat
  | constant _ => 1
  | identifier _ => 1
  | precompiled _ => 1
  | apply _ _ operands => 1 + depthOfAll operands

def depthOfAll : List Formula → Nat
  | [] => 0
  | operand :: rest => max (depth operand) (depthOfAll rest)

end

end Formula

end Formulary
