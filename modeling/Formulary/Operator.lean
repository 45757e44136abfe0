import Formulary.Value

/-! # Operators

An operator is described by how its text is read (symbol, priority, associativity, the positions it
can stand in) and by how its nodes are evaluated (form and, for the generic form, a function of the
operands' values). Lower priorities bind tighter. Priorities have 32 bits and a sign, and one less
than the least of them is the greatest: their arithmetic is that of a machine that does not look for
overflow. A machine that does would stop at the operator in question.
-/

namespace Formulary

inductive Associativity where
  | left
  | right
  /-- Cannot stand next to an operator of the same priority without parentheses. -/
  | nonAssociative
deriving DecidableEq, Repr

/-- How the nodes of an operator are evaluated. -/
inductive Form where
  /-- A function of one or two evaluated operands. -/
  | generic
  /-- Short-circuit disjunction, answering the operand that decides. -/
  | or
  /-- Short-circuit conjunction, answering the operand that decides. -/
  | and
  | dot
  | parenthesis
  | functionCall
  | methodCall
  | indexer
  /-- Logs the value, the host and the last result of every node. -/
  | dump
  /-- Logs the value. -/
  | log
deriving DecidableEq, Repr

/-- Whether the form has syntax of its own, apart from infix and prefix symbols. -/
def Form.isStructural : Form → Bool
  | dot => true
  | parenthesis => true
  | functionCall => true
  | methodCall => true
  | indexer => true
  | _ => false

/-- Priorities are given as integers, of which 32 bits are kept. -/
instance priorityOfInt : CoeTail Int Int32 := ⟨Int32.ofInt⟩

/-- The integer that a priority is. -/
instance intOfPriority : CoeHead Int32 Int := ⟨Int32.toInt⟩

/-- An operator. Unless told otherwise it is left associative, generic, can stand nowhere, and its
results are unknown. -/
structure Operator where
  symbol : String
  /-- A name for people. -/
  name : String
  priority : Int32
  associativity : Associativity := .left
  form : Form := .generic
  /-- Whether the symbol can stand before an operand. -/
  unary : Bool := false
  /-- Whether the symbol can stand between operands. -/
  binary : Bool := false
  evaluateUnary : Value → Value := fun _ => .unknown
  evaluateBinary : Value → Value → Value := fun _ _ => .unknown

/-- The priority of everything with syntax of its own: it binds tighter than any symbol. -/
def structuralPriority : Int32 := -1

/-- The priority up to which a prefix operator takes its operand. -/
def prefixPriority : Int32 := 3

namespace Operator

/-- How many bytes the symbol takes up. -/
def width (op : Operator) : Nat := op.symbol.utf8ByteSize

/-- The loosest priority that may stand to the right of the operator without parentheses. It is
looser than any other if the operator has the least priority and is not right associative. -/
def rightLimit (op : Operator) : Int32 :=
  match op.associativity with
  | .right => op.priority
  | .left | .nonAssociative => op.priority - 1

/-- Whether the symbol starts the text. -/
def starts (op : Operator) (text : List Char) : Bool := op.symbol.toList.isPrefixOf text

/-- Whether the symbol is looked for between operands. -/
def standsInfix (op : Operator) : Bool := op.binary || op.form == .dot

/-- Whether the symbol is looked for before an operand. -/
def standsPrefix (op : Operator) : Bool := op.unary && !op.form.isStructural

/-- The operator for diagnosis. -/
def diagnostic (op : Operator) : String := "Operator(" ++ op.symbol ++ ")"

end Operator

end Formulary
