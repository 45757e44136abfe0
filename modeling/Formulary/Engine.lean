import Formulary.Grammar
import Formulary.Machine
import Formulary.Settings

/-! # Engines

An engine reads formulas with one pair of tables, lowers them as its settings say, and keeps the
trees of texts it has read. When the cache is full it is emptied before the next text goes in. A
lenient engine turns every failure of an evaluation into `unknown`; a strict one reports failures,
formulas that cannot be lowered, and unknown results.
-/

namespace Formulary

/-- What an engine reports. -/
inductive FormulaError where
  | parse (error : ParseError)
  | evaluation (error : EvalError)
  | compilation (error : LoweringError)
  /-- The formula with this text evaluated to `unknown`. -/
  | unknownResult (formula : String)
deriving DecidableEq, Repr

namespace FormulaError

/-- The wording. -/
def message : FormulaError → String
  | parse error => "Parse error: " ++ error.message
  | evaluation error => "Evaluation error: " ++ error.message
  | compilation error => "Compilation error: " ++ error.message
  | unknownResult formula => "Formula '" ++ formula ++ "' evaluated to unknown"

/-- Whether the text was at fault and not what it was evaluated on. -/
def isSyntaxError : FormulaError → Bool
  | parse _ => true
  | _ => false

end FormulaError

namespace Grammar

/-- Reads a text and notes in the log if it is no formula. -/
def readLogged (g : Grammar) (text : String) (w : World) : Except ParseError Formula × World :=
  match g.read text with
  | .ok formula => (.ok formula, w)
  | .error error => (.error error, w.write (.misread text error))

/-- The tree of a text, lowered if asked for; a tree that cannot be lowered will be walked. -/
def plant (g : Grammar) (text : String) (compiled : Bool) (w : World) :
    Except ParseError Tree × World :=
  match g.readLogged text w with
  | (.error error, w) => (.error error, w)
  | (.ok formula, w) =>
    let (tree, w) := w.plant formula
    (.ok tree, if compiled then (tree.compile defaultDepthLimit w).2 else w)

end Grammar

/-- An engine. -/
structure Engine where
  grammar : Grammar := .standard
  settings : Settings := {}
  /-- The trees of texts that were read, the latest first. -/
  cache : List (String × Tree) := []

namespace Engine

/-- Uses other functions from now on. -/
def withFunctions (e : Engine) (functions : FunctionTable) : Engine :=
  { e with grammar := { e.grammar with functions := functions }, cache := [] }

/-- Uses other operators from now on. -/
def withOperators (e : Engine) (operators : OperatorTable) : Engine :=
  { e with grammar := { e.grammar with operators := operators }, cache := [] }

/-- Uses other settings from now on. -/
def withSettings (e : Engine) (settings : Settings) : Engine :=
  { e with settings := settings, cache := [] }

/-- Forgets the texts that were read. -/
def clearCache (e : Engine) : Engine := { e with cache := [] }

def cacheSize (e : Engine) : Nat := e.cache.length

/-- The tree kept for a text. -/
def cached? (e : Engine) (text : String) : Option Tree :=
  (e.cache.find? fun entry => entry.1 == text).map Prod.snd

/-- Reads a text and lowers it as the settings say. -/
def parse (e : Engine) (text : String) (w : World) : Except FormulaError Tree × World :=
  match e.grammar.readLogged text w with
  | (.error error, w) => (.error (.parse error), w)
  | (.ok formula, w) =>
    let (tree, w) := w.plant formula
    if e.settings.allowCompilation then
      if e.settings.strict then
        match tree.tryCompile e.settings.maxDepth w with
        | (.ok _, w) => (.ok tree, w)
        | (.error error, w) => (.error (.compilation error), w)
      else (.ok tree, (tree.compile e.settings.maxDepth w).2)
    else (.ok tree, w)

/-- Makes room for one more text and keeps its tree, if there is any room at all. -/
def remember (e : Engine) (text : String) (tree : Tree) (w : World) : Engine × World :=
  let (e, w) :=
    if e.settings.maxCacheSize ≤ e.cacheSize then
      (e.clearCache, w.write (.cacheFull e.cacheSize))
    else (e, w)
  (if 0 < e.settings.maxCacheSize then { e with cache := (text, tree) :: e.cache } else e, w)

/-- The tree of a text, the same one as long as the text is in the cache. -/
def parseCached (e : Engine) (text : String) (w : World) :
    Except FormulaError Tree × Engine × World :=
  match e.cached? text with
  | some tree => (.ok tree, e, w)
  | none =>
    match e.parse text w with
    | (.error error, w) => (.error error, e, w)
    | (.ok tree, w) => (.ok tree, e.remember text tree w)

/-- Evaluates a tree to a plain value. -/
def compute (e : Engine) (tree : Tree) (host : Host) (w : World) :
    Except FormulaError Value × World :=
  let (outcome, w) := tree.calcOn host true w
  match outcome with
  | .error error => (if e.settings.strict then .error (.evaluation error) else .ok .unknown, w)
  | .ok value =>
    (if e.settings.strict && value.isUnknown then .error (.unknownResult tree.formula.text)
      else .ok value, w)

/-- Reads and evaluates a text. -/
def evaluate (e : Engine) (text : String) (host : Host) (w : World) :
    Except FormulaError Value × Engine × World :=
  match e.parseCached text w with
  | (.error error, e, w) => (.error error, e, w)
  | (.ok tree, e, w) =>
    let (result, w) := e.compute tree host w
    (result, e, w)

/-- The engine for diagnosis. -/
def outline (e : Engine) : Text.Outline :=
  .record "FormulaEngine"
    [("operators", .leaf (toString e.grammar.operators.size)),
     ("functions", e.grammar.functions.outline), ("config", e.settings.outline),
     ("cached", .leaf (toString e.cacheSize))]

end Engine

end Formulary
