import Formulary.Code.Lowering
import Formulary.Formula.Trace

/-! # What evaluations leave behind

The last result and the slot of every node, the log, the calls that the host received, and counters.
-/

namespace Formulary

inductive LogLevel where
  | error
  | warn
  | info
  | debug
  | trace
deriving DecidableEq, Repr

/-- A line of the log. -/
inductive LogEvent where
  /-- An evaluation that was not part of another one failed. -/
  | failed (formula : String) (error : EvalError)
  /-- An evaluation that host code had asked for failed. -/
  | nestedFailed (formula : String) (error : EvalError)
  | notLowered (formula : String) (error : LoweringError)
  /-- A value under a text. -/
  | logged (text : String) (value : Value)
  /-- A value with the description of the host and the last result of every node. -/
  | dump (text : String) (value : Value) (host : String) (trace : List String)
  | misread (text : String) (error : ParseError)
  | cacheFull (entries : Nat)

namespace LogEvent

def level : LogEvent → LogLevel
  | failed _ _ => .error
  | nestedFailed _ _ => .trace
  | notLowered _ _ => .warn
  | logged _ _ => .info
  | dump _ _ _ _ => .info
  | misread _ _ => .debug
  | cacheFull _ => .debug

/-- The wording. -/
def text : LogEvent → String
  | failed formula error => "failed to evaluate '" ++ formula ++ "': " ++ error.message
  | nestedFailed formula error =>
    "nested evaluation of '" ++ formula ++ "' failed: " ++ error.message
  | notLowered formula error => "cannot compile '" ++ formula ++ "': " ++ error.message
  | logged text value => text ++ " = " ++ value.literal
  | dump text value host trace =>
    text ++ " = " ++ value.literal ++ "\ncontext: " ++ host ++ "\n" ++ "\n".intercalate trace
  | misread text error => "failed to parse '" ++ text ++ "': " ++ error.message
  | cacheFull entries => "formula cache full at " ++ toString entries ++ " entries, clearing"

end LogEvent

/-- The memory of all trees, the log and the counters. -/
structure World where
  /-- The last results of nodes that have been evaluated. -/
  results : Std.HashMap Cell Value := ∅
  slots : Slots := ∅
  /-- The log, the earliest line first. -/
  log : List LogEvent := []
  /-- The calls that the host received, the earliest first. -/
  calls : List Call := []
  /-- How many evaluations were started. -/
  evaluations : Nat := 0
  /-- How many of them failed. -/
  failures : Nat := 0
  /-- Whether an evaluation is going on. -/
  evaluating : Bool := false
  nextSerial : Nat := 0
  nextTree : Nat := 0

namespace World

/-- The last result of a node. -/
def result (w : World) (cell : Cell) : Value := w.results.getD cell .unknown

/-- Keeps the result of a node. -/
def keep (w : World) (cell : Cell) (value : Value) : World :=
  { w with results := w.results.insert cell value }

/-- Adds a line to the log. -/
def write (w : World) (event : LogEvent) : World := { w with log := w.log ++ [event] }

/-- Notes a call of the host. -/
def noteCall (w : World) (call : Call) : World := { w with calls := w.calls ++ [call] }

/-- Gives a formula memory of its own. -/
def plant (w : World) (formula : Formula) : Tree × World :=
  (⟨formula, Layout.ofTree w.nextTree⟩, { w with nextTree := w.nextTree + 1 })

end World

namespace Tree

/-- The last result of the root. -/
def lastResult (tree : Tree) (w : World) : Value := w.result tree.cell

/-- Whether the root has been lowered to code. -/
def isCompiled (tree : Tree) (w : World) : Bool := (w.slots.code? tree.cell).isSome

/-- The lines that show the last result of every node. -/
def traceLines (tree : Tree) (indent : String) (w : World) : List String :=
  tree.formula.traceLines indent 0 fun path => w.result (tree.layout path)

/-- The lines that show the last result of every node, each with its ending. -/
def trace (tree : Tree) (indent newline : String) (w : World) : String :=
  tree.formula.trace indent newline fun path => w.result (tree.layout path)

/-- Lowers the tree and tells why it failed. -/
def tryCompile (tree : Tree) (limit : Nat) (w : World) : Except LoweringError Code × World :=
  let (outcome, slots) := tree.lower limit w.slots
  (outcome, { w with slots := slots })

/-- Lowers the tree and tells whether that worked; the reason is logged the first time it does not.
-/
def compile (tree : Tree) (limit : Nat) (w : World) : Bool × World :=
  match w.slots[tree.cell]? with
  | some (.ready _) => (true, w)
  | some .failed => (false, w)
  | none =>
    match tree.tryCompile limit w with
    | (.ok _, w) => (true, w)
    | (.error error, w) => (false, w.write (.notLowered tree.formula.text error))

end Tree

end Formulary
