import Formulary.Formula

/-! # What a formula refers to

The names that evaluating a formula can ask its host for, split by how they are reached. An operand
that only names a member, method or function is no variable.
-/

namespace Formulary

/-- How a name is reached. -/
inductive Role where
  /-- Looked up by itself. -/
  | global
  | function
  | member
  | method
  | precompiled
deriving DecidableEq, Repr

/-- Adds a name in its place in an ascending list without repetitions. -/
def insertName (name : String) : List String → List String
  | [] => [name]
  | other :: rest =>
    if name < other then name :: other :: rest
    else if name == other then other :: rest
    else other :: insertName name rest

/-- The names in ascending order, each once. -/
def sortNames (names : List String) : List String := names.foldr insertName []

/-- The names of a formula by role, each list in ascending order and without repetitions. -/
structure References where
  «variables» : List String
  functions : List String
  members : List String
  methods : List String
  precompiled : List String
deriving DecidableEq, Repr

namespace Formula

/-- The name of the operand at a position, if it is an identifier. -/
def nameAt? (operands : List Formula) (i : Nat) : Option String := operands[i]?.bind identifier?

/-- A name in a role, if there is one. -/
def mention (role : Role) : Option String → List (Role × String)
  | none => []
  | some name => [(role, name)]

mutual

/-- Every name in the formula with its role, from left to right. -/
def mentions : Formula → List (Role × String)
  | constant _ => []
  | identifier name => [(.global, name)]
  | precompiled expression => [(.precompiled, expression.name)]
  | apply operator _ operands =>
    let inner := mentionsOfEach operands
    match operator.form with
    | .dot => mention .member (nameAt? operands 1) ++ (inner.take 1).flatten
    | .methodCall =>
      mention .method (nameAt? operands 1) ++ (inner.take 1).flatten ++ (inner.drop 2).flatten
    | .functionCall => mention .function (nameAt? operands 0) ++ (inner.drop 1).flatten
    | _ => inner.flatten

def mentionsOfEach : List Formula → List (List (Role × String))
  | [] => []
  | operand :: rest => mentions operand :: mentionsOfEach rest

end

/-- The names that the formula has in a role. -/
def namesOf (f : Formula) (role : Role) : List String :=
  sortNames ((f.mentions.filter fun m => m.1 == role).map Prod.snd)

/-- The names that the formula refers to. -/
def references (f : Formula) : References where
  «variables» := f.namesOf .global
  functions := f.namesOf .function
  members := f.namesOf .member
  methods := f.namesOf .method
  precompiled := f.namesOf .precompiled

end Formula

end Formulary
