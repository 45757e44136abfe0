import Formulary.Value

/-! # What an evaluation asks of its host -/

namespace Formulary

/-- A question to the host. -/
inductive Request where
  /-- The value of a bare identifier. -/
  | lookup (name : String)
  | member (target : Handle) (name : String)
  /-- A call of a function that is not native. -/
  | function (name : String) (args : List Value)
  | method (target : Handle) (name : String) (args : List Value)
  | index (target : Handle) (indices : List Value)
  /-- The plain value that a looked-up value stands for. -/
  | resolve (value : Value)
deriving Inhabited

/-- A call that a host receives. -/
inductive Call where
  | request (request : Request)
  /-- A request for a description of the host. -/
  | describe
deriving Inhabited

end Formulary
