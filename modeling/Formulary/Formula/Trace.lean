import Formulary.Formula.Text

/-! # The last result of every node

One line for each node, indented by its depth. Operands that only name a member, method or function
show in the line of their parent.
-/

namespace Formulary

/-- The position of the operand that only carries a name. -/
def Form.namePosition? : Form → Option Nat
  | dot => some 1
  | methodCall => some 1
  | functionCall => some 0
  | _ => none

namespace Formula

/-- What stands for a node in its line. -/
def label : Formula → String
  | constant value => value.literal
  | identifier name => name
  | precompiled expression => "#" ++ expression.name
  | apply operator _ operands =>
    let name (i : Nat) := (operands[i]?.bind identifier?).getD "?"
    match operator.form with
    | .dot => "." ++ name 1
    | .methodCall => "." ++ name 1 ++ "()"
    | .functionCall => name 0 ++ "()"
    | _ => operator.symbol

/-- The list without the item at a position. -/
def dropAt {α : Type} (items : List α) : Option Nat → List α
  | none => items
  | some i => items.eraseIdx i

/-- The line of a node at some depth that last gave `result`. -/
def traceLine (indent : String) (depth : Nat) (f : Formula) (result : Value) : String :=
  String.join (List.replicate depth indent) ++ f.label ++ " => " ++ result.literal

mutual

/-- The lines of a node at some depth and of those below it; `last` gives the last result of the
node at a path below this one. -/
def traceLines (indent : String) (depth : Nat) (last : List Nat → Value) : Formula → List String
  | constant value => [traceLine indent depth (constant value) (last [])]
  | identifier name => [traceLine indent depth (identifier name) (last [])]
  | precompiled expression => [traceLine indent depth (precompiled expression) (last [])]
  | apply operator native operands =>
    traceLine indent depth (apply operator native operands) (last []) ::
      (dropAt (traceOfEach indent (depth + 1) last 0 operands) operator.form.namePosition?).flatten

def traceOfEach (indent : String) (depth : Nat) (last : List Nat → Value) (i : Nat) :
    List Formula → List (List String)
  | [] => []
  | operand :: rest =>
    traceLines indent depth (fun path => last (i :: path)) operand ::
      traceOfEach indent depth last (i + 1) rest

end

/-- The lines, each with its ending. -/
def trace (indent newline : String) (last : List Nat → Value) (f : Formula) : String :=
  String.join ((f.traceLines indent 0 last).map (· ++ newline))

end Formula

end Formulary
