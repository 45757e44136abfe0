import Formulary.Formula

/-! # Hosts

A host owns everything outside a formula. What it does when it is asked may depend on the calls that
it has received before, and on nothing else.
-/

namespace Formulary

/-- What a host does when it is called, given the calls before, the earliest first. -/
structure Host where
  respond : List Call → Request → Routine Formula String Value
  /-- The description of the host, which cannot fail. -/
  describe : List Call → Routine Formula Empty String

/-- A request without an answer of its own: a value resolves to itself, and nothing else is known.
-/
def Request.defaultAnswer : Request → Value
  | .resolve value => value
  | _ => .unknown

namespace Host

/-- A host that always does the same for the same request. -/
def stateless (respond : Request → Routine Formula String Value)
    (describe : Routine Formula Empty String) : Host :=
  ⟨fun _ => respond, fun _ => describe⟩

/-- A host without variables, functions and objects. -/
def empty : Host := stateless (fun request => .done request.defaultAnswer) (.done "EmptyContext")

end Host

end Formulary
