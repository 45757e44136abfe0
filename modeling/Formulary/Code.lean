import Formulary.Program

/-! # Lowered formulas

Code is what remains of a formula once the form of every node has been looked at: names are taken
out of their operands, groupings are gone and every operand says which cell keeps its result. Only
the operand of the dumping operator stays a tree, because its nodes are shown.
-/

namespace Formulary

/-- A formula in a form that is run without looking at operands again. -/
inductive Code where
  | constant (value : Value)
  | lookup (name : String)
  | precompiled (expression : Precompiled Formula)
  | unary (operator : Operator) (operand : Code)
  | binary (operator : Operator) (left right : Code)
  | or (left right : Code)
  | and (left right : Code)
  | member (target : Code) (name : String)
  | function (native : Option (Native Formula)) (name : String) (args : List Code)
  | method (target : Code) (name : String) (args : List Code)
  | index (target : Code) (indices : List Code)
  | log (text : String) (operand : Code)
  | dump (operand : Tree)
  /-- Keeps the result of some code in a cell. -/
  | recorded (cell : Cell) (code : Code)
deriving Inhabited

end Formulary
