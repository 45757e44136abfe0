/-! # Why an evaluation fails

Operands of the wrong type are no failure: they give `unknown`. What fails is the host, or a tree
whose nodes do not have the operands that their operator needs.
-/

namespace Formulary

/-- How many operands an operator needs. -/
inductive OperandCount where
  | exactly (n : Nat)
  | oneOrTwo
  | atLeast (n : Nat)
deriving DecidableEq, Repr

/-- The number in words. -/
def OperandCount.text : OperandCount → String
  | exactly n => toString n
  | oneOrTwo => "1 or 2"
  | atLeast n => "at least " ++ toString n

/-- What is wrong with the operands of a node. -/
inductive Malformation where
  | operandCount (operator : String) (expected : OperandCount) (actual : Nat)
  /-- The operand that names a member, method or function is not an identifier. -/
  | expectedIdentifier (operator : String)
deriving DecidableEq, Repr

/-- The wording. -/
def Malformation.message : Malformation → String
  | operandCount operator expected actual =>
    "Operator '" ++ operator ++ "' expects " ++ expected.text ++ " operands, got " ++
      toString actual
  | expectedIdentifier operator => "Operator '" ++ operator ++ "' expects an identifier operand"

/-- Why an evaluation failed. -/
inductive EvalError where
  /-- The host or a native function reported a failure. -/
  | host (message : String)
  | malformed (fault : Malformation)
  /-- Host code broke off. -/
  | panic (message : String)
deriving DecidableEq, Repr

namespace EvalError

/-- The wording. -/
def message : EvalError → String
  | host message => "Host error: " ++ message
  | malformed fault => fault.message
  | panic message => "Evaluation panicked: " ++ message

/-- Whether the failure came from the host's side. -/
def isHostError : EvalError → Bool
  | host _ => true
  | malformed _ => false
  | panic _ => true

end EvalError

end Formulary
