import Formulary.Code
import Formulary.Formula.Evaluate

/-! # Running code -/

namespace Formulary.Code

mutual

/-- The program of some code. -/
def run (asValue : Bool) : Code → Program Value
  | constant value => .done value
  | lookup name => Program.request (.lookup name) asValue
  | precompiled expression => .invoke (expression.body asValue) .done
  | unary operator operand => do
    let operand ← run true operand
    Program.operator operator [operand]
  | binary operator left right => do
    let left ← run true left
    let right ← run true right
    Program.operator operator [left, right]
  | or left right => do
    let left ← run true left
    if left.truthy then .done left else run true right
  | and left right => do
    let left ← run true left
    if left.truthy then run true right else .done left
  | member target name => do
    let target ← run false target
    Program.member target name asValue
  | function native name args => do
    let args ← runAll args
    Program.function native name args asValue
  | method target name args => do
    let target ← run false target
    let args ← runAll args
    Program.method target name args asValue
  | index target indices => do
    let target ← run false target
    let indices ← runAll indices
    Program.index target indices asValue
  | log text operand => do
    let value ← run asValue operand
    Program.log text value (.done value)
  | dump operand => do
    let value ← operand.formula.evaluate operand.layout asValue
    Program.dump operand value (.done value)
  | recorded cell code => Program.recorded cell (run asValue code)

/-- The plain values of arguments, from left to right. -/
def runAll : List Code → Program (List Value)
  | [] => .done []
  | code :: rest => do
    let value ← run true code
    let values ← runAll rest
    .done (value :: values)

end

end Formulary.Code
