import Formulary.Program
import Formulary.Formula.Text

/-! # Evaluating a formula by walking it

Operands are evaluated from left to right, each at most once. The target of a member access, method
call or indexing is evaluated for a reference; every other operand of these forms, and every operand
of an operator, for a plain value. Grouping and the logging operators pass on what is wanted of
them.
-/

namespace Formulary.Formula

open Program

mutual

/-- The program of a node: what it does, and its result kept in its cell. -/
def evaluate (layout : Layout) (asValue : Bool) : Formula → Program Value
  | constant value => recorded layout.root (done value)
  | identifier name => recorded layout.root (request (.lookup name) asValue)
  | precompiled expression => recorded layout.root (invoke (expression.body asValue) done)
  | apply operator native operands =>
    let fault (expected : OperandCount) : Program Value :=
      malformed (.operandCount operator.symbol expected operands.length)
    let unnamed : Program Value := malformed (.expectedIdentifier operator.symbol)
    recorded layout.root <|
      match operator.form with
      | .generic =>
        match operands with
        | [operand] => do
          let operand ← evaluate (layout.below 0) true operand
          Program.operator operator [operand]
        | [left, right] => do
          let left ← evaluate (layout.below 0) true left
          let right ← evaluate (layout.below 1) true right
          Program.operator operator [left, right]
        | _ => fault .oneOrTwo
      | .or =>
        match operands with
        | [left, right] => do
          let left ← evaluate (layout.below 0) true left
          if left.truthy then done left else evaluate (layout.below 1) true right
        | _ => fault (.exactly 2)
      | .and =>
        match operands with
        | [left, right] => do
          let left ← evaluate (layout.below 0) true left
          if left.truthy then evaluate (layout.below 1) true right else done left
        | _ => fault (.exactly 2)
      | .parenthesis =>
        match operands with
        | [inner] => evaluate (layout.below 0) asValue inner
        | _ => fault (.exactly 1)
      | .dot =>
        match operands with
        | [target, name] =>
          match name.identifier? with
          | none => unnamed
          | some name => do
            let target ← evaluate (layout.below 0) false target
            member target name asValue
        | _ => fault (.exactly 2)
      | .functionCall =>
        match operands with
        | name :: args =>
          match name.identifier? with
          | none => unnamed
          | some name => do
            let args ← evaluateAll layout 1 args
            function native name args asValue
        | _ => fault (.atLeast 1)
      | .methodCall =>
        match operands with
        | target :: name :: args =>
          match name.identifier? with
          | none => unnamed
          | some name => do
            let target ← evaluate (layout.below 0) false target
            let args ← evaluateAll layout 2 args
            method target name args asValue
        | _ => fault (.atLeast 2)
      | .indexer =>
        match operands with
        | target :: first :: rest => do
          let target ← evaluate (layout.below 0) false target
          let first ← evaluate (layout.below 1) true first
          let rest ← evaluateAll layout 2 rest
          index target (first :: rest) asValue
        | _ => fault (.atLeast 2)
      | .log =>
        match operands with
        | [operand] => do
          let value ← evaluate (layout.below 0) asValue operand
          Program.log operand.text value (done value)
        | _ => fault (.exactly 1)
      | .dump =>
        match operands with
        | [operand] => do
          let value ← evaluate (layout.below 0) asValue operand
          Program.dump ⟨operand, layout.below 0⟩ value (done value)
        | _ => fault (.exactly 1)

/-- The plain values of operands, the first of which stands at position `i`. -/
def evaluateAll (layout : Layout) (i : Nat) : List Formula → Program (List Value)
  | [] => done []
  | operand :: rest => do
    let value ← evaluate (layout.below i) true operand
    let values ← evaluateAll layout (i + 1) rest
    done (value :: values)

end

end Formulary.Formula
