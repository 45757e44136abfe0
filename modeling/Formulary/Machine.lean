import Formulary.Code.Run
import Formulary.Host
import Formulary.World

/-! # Running programs and routines

The meaning of the steps of programs and routines. Host code may evaluate formulas, whose programs
ask the host again, and so on. A machine serves the questions of one level of this nesting; the
bottom machine breaks off whoever asks it. A formula that host code evaluates becomes a tree of its
own on the same host; that host code holds a tree from before and evaluates it is left out.

An evaluation runs inside a boundary: whatever happens in it, its caller gets a value or an error. A
failure is counted, logged and leaves the root of the tree `unknown`.

Runs are those with a log that takes lines of every level: a dump asks the host for its description.
Where the log leaves out lines of level `info`, nobody asks, and a run is that of a host whose
description is done at once.
-/

namespace Formulary

/-- How a routine or program ends. -/
inductive Outcome (ε α : Type) where
  | answered (answer : α)
  | failed (error : ε)
  | panicked (message : Option String)

/-- What serves the questions of routines and programs. -/
structure Machine where
  ask : Request → World → Outcome String Value × World
  describe : World → Outcome Empty String × World
  /-- Evaluates a formula; nothing if evaluations are nested too deeply. -/
  evaluate : Formula → Bool → Bool → World → Option (Except EvalError Value) × World

/-- The message of code that broke off because calls were nested too deeply. -/
def nestedTooDeeply : Option String := some "evaluation nested too deeply"

/-- Runs foreign code. -/
def Routine.run {ε α : Type} (m : Machine) : Routine Formula ε α → World → Outcome ε α × World
  | done answer, w => (.answered answer, w)
  | fail error, w => (.failed error, w)
  | panic message, w => (.panicked message, w)
  | ask request next, w =>
    match m.ask request w with
    | (.answered answer, w) => (next (.ok answer)).run m w
    | (.failed message, w) => (next (.error message)).run m w
    | (.panicked message, w) => (.panicked message, w)
  | evaluate formula compiled asValue next, w =>
    match m.evaluate formula compiled asValue w with
    | (some result, w) => (next result).run m w
    | (none, w) => (.panicked nestedTooDeeply, w)
  | fresh next, w => (next w.nextSerial).run m { w with nextSerial := w.nextSerial + 1 }
  | misread text error next, w => next.run m (w.write (.misread text error))

/-- Runs a program. -/
def Program.run {α : Type} (m : Machine) : Program α → World → Outcome EvalError α × World
  | done result, w => (.answered result, w)
  | fail error, w => (.failed error, w)
  | ask request next, w =>
    match m.ask request w with
    | (.answered answer, w) => (next answer).run m w
    | (.failed message, w) => (.failed (.host message), w)
    | (.panicked message, w) => (.panicked message, w)
  | invoke routine next, w =>
    match routine.run m w with
    | (.answered answer, w) => (next answer).run m w
    | (.failed error, w) => (.failed error, w)
    | (.panicked message, w) => (.panicked message, w)
  | operate operator operands next, w => (next (operator.result operands)).run m w
  | record cell result next, w => next.run m (w.keep cell result)
  | log text value next, w => next.run m (w.write (.logged text value))
  | dump tree value next, w =>
    match m.describe w with
    | (.answered host, w) =>
      next.run m (w.write (.dump tree.formula.text value host (tree.traceLines "  " w)))
    | (.failed error, _) => nomatch error
    | (.panicked message, w) => (.panicked message, w)

/-- The message of code that broke off without one. -/
def panicWithoutText : String := "non-string panic payload"

/-- What the boundary hands to its caller: code that broke off has failed too. -/
def Outcome.trapped {α : Type} : Outcome EvalError α → Except EvalError α
  | answered answer => .ok answer
  | failed error => .error error
  | panicked message => .error (.panic (message.getD panicWithoutText))

namespace Tree

/-- What evaluating a tree does: it runs the code of the root if there is some and walks the tree
otherwise. -/
def program (tree : Tree) (slots : Slots) (asValue : Bool) : Program Value :=
  match slots.code? tree.cell with
  | some code => Program.recorded tree.cell (code.run asValue)
  | none => tree.formula.evaluate tree.layout asValue

/-- Counts and logs a failed evaluation, and leaves the root `unknown`. -/
def noteFailure (tree : Tree) (outermost : Bool) (error : EvalError) (w : World) : World :=
  let event : LogEvent :=
    if outermost then .failed tree.formula.text error else .nestedFailed tree.formula.text error
  ({ w with failures := w.failures + 1 }.write event).keep tree.cell .unknown

/-- Evaluates a tree inside the boundary. Only an evaluation that is not part of another one marks
its beginning and its end. -/
def calcChecked (m : Machine) (tree : Tree) (asValue : Bool) (w : World) :
    Except EvalError Value × World :=
  let outermost := !w.evaluating
  let (outcome, w) :=
    (tree.program w.slots asValue).run m
      { w with evaluations := w.evaluations + 1, evaluating := true }
  let w := if outermost then { w with evaluating := false } else w
  match outcome.trapped with
  | .ok value => (.ok value, w)
  | .error error => (.error error, tree.noteFailure outermost error w)

end Tree

namespace Machine

/-- The machine below all nesting. -/
def bottom : Machine where
  ask _ w := (.panicked nestedTooDeeply, w)
  describe w := (.panicked nestedTooDeeply, w)
  evaluate _ _ _ w := (none, w)

/-- A machine for a host whose calls may be nested in so many levels; what a routine asks is served
one level down. Every call is noted before the host sees it; every formula that host code evaluates
is a tree of its own. -/
def ofHost (host : Host) : Nat → Machine
  | 0 => bottom
  | levels + 1 => {
    ask := fun request w =>
      (host.respond w.calls request).run (ofHost host levels) (w.noteCall (.request request))
    describe := fun w => (host.describe w.calls).run (ofHost host levels) (w.noteCall .describe)
    evaluate := fun formula compiled asValue w =>
      let (tree, w) := w.plant formula
      let w := if compiled then (tree.compile defaultDepthLimit w).2 else w
      let (result, w) := tree.calcChecked (ofHost host levels) asValue w
      (some result, w) }

end Machine

/-- How many calls may be nested in one another: more than any host needs that does not ask itself
without end. -/
def nestingLevels : Nat := 1000000

namespace Tree

/-- Evaluates a tree on a host. -/
def calcOn (host : Host) (tree : Tree) (asValue : Bool) (w : World) :
    Except EvalError Value × World :=
  tree.calcChecked (.ofHost host nestingLevels) asValue w

/-- Evaluates a tree on a host without a boundary: a failure is handed back as it is, and code that
broke off goes on breaking off. -/
def tryCalcOn (host : Host) (tree : Tree) (asValue : Bool) (w : World) :
    Outcome EvalError Value × World :=
  (tree.program w.slots asValue).run (.ofHost host nestingLevels) w

end Tree

end Formulary
