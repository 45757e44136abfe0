import Formulary.Operator.Arithmetic
import Formulary.Operator.Relation
import Formulary.Operator.Structure

/-! # Tables of operators

A table answers which operator has a symbol, which one starts a text in infix or prefix position,
and which one stands for a form with syntax of its own. Candidates are kept longest symbol first, so
that the first match is the longest.
-/

namespace Formulary

/-- The operators that a reader knows. -/
structure OperatorTable where
  /-- One operator for every symbol. -/
  operators : List Operator
  structural : Form → Option Operator
  infixCandidates : List Operator
  prefixCandidates : List Operator

namespace OperatorTable

/-- A table without operators. -/
def empty : OperatorTable := ⟨[], fun _ => none, [], []⟩

/-- Puts an operator behind all candidates whose symbols are at least as long. -/
def insertCandidate (op : Operator) : List Operator → List Operator
  | [] => [op]
  | other :: rest =>
    if op.width ≤ other.width then other :: insertCandidate op rest else op :: other :: rest

/-- The operators of other symbols. -/
def without (symbol : String) (ops : List Operator) : List Operator :=
  ops.filter fun op => op.symbol != symbol

/-- Adds an operator in place of the one with the same symbol. -/
def register (table : OperatorTable) (op : Operator) : OperatorTable where
  operators := without op.symbol table.operators ++ [op]
  structural form :=
    if op.form.isStructural && form == op.form then some op else table.structural form
  infixCandidates :=
    let others := without op.symbol table.infixCandidates
    if op.standsInfix then insertCandidate op others else others
  prefixCandidates :=
    let others := without op.symbol table.prefixCandidates
    if op.standsPrefix then insertCandidate op others else others

/-- Adds operators one after the other. -/
def registerAll (table : OperatorTable) (ops : List Operator) : OperatorTable :=
  ops.foldl register table

/-- The operator with a symbol. -/
def get? (table : OperatorTable) (symbol : String) : Option Operator :=
  table.operators.find? fun op => op.symbol == symbol

/-- The operator with the longest symbol that starts the text, among those that stand between
operands. -/
def matchInfix? (table : OperatorTable) (text : List Char) : Option Operator :=
  table.infixCandidates.find? fun op => op.starts text

/-- The operator with the longest symbol that starts the text, among those that stand before an
operand. -/
def matchPrefix? (table : OperatorTable) (text : List Char) : Option Operator :=
  table.prefixCandidates.find? fun op => op.starts text

/-- How many operators there are. -/
def size (table : OperatorTable) : Nat := table.operators.length

/-- The built-in operators, in the order in which they are added. -/
def builtin : List Operator :=
  [.memberAccess, .grouping, .functionCall, .methodCall, .indexing,
   .negation, .dump, .log,
   .power, .multiplication, .division, .modulo, .addition, .subtraction,
   .less, .lessOrEqual, .greater, .greaterOrEqual, .equality, .inequality,
   .conjunction, .disjunction]

/-- The table of the built-in operators. -/
def standard : OperatorTable := empty.registerAll builtin

end OperatorTable

end Formulary
