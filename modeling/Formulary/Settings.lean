import Formulary.Code.Lowering
import Formulary.Json.Reader
import Formulary.Text.Outline

/-! # Settings of an engine

Settings are read from JSON. A setting that is missing keeps its default, a member that is no
setting is skipped, and a setting that is given twice or has the wrong type is refused. In place of
an object there may be an array of the settings in their order.
-/

namespace Formulary

/-- The settings of an engine. -/
structure Settings where
  /-- Whether formulas are lowered to code when they are read. -/
  allowCompilation : Bool := true
  /-- Whether failures and unknown results are errors. -/
  strict : Bool := false
  /-- How many formulas the cache holds. -/
  maxCacheSize : Nat := 1000
  /-- How deep a formula may be to be lowered. -/
  maxDepth : Nat := defaultDepthLimit
deriving DecidableEq, Repr

namespace Settings

/-- The settings for diagnosis. -/
def outline (s : Settings) : Text.Outline :=
  let flag (b : Bool) := Text.Outline.leaf (if b then "true" else "false")
  let number (n : Nat) := Text.Outline.leaf (toString n)
  .record "EngineConfig"
    [("allow_compilation", flag s.allowCompilation), ("strict", flag s.strict),
     ("max_cache_size", number s.maxCacheSize),
     ("compiler", .record "CompilerConfig" [("max_depth", number s.maxDepth)])]

open Json (Reader)

/-- Reads `true` or `false`. -/
def readFlag : Reader Bool := fun cs =>
  match Json.scalar cs with
  | some (.bool b, rest) => some (b, rest)
  | _ => none

/-- Reads a whole number that is not negative. -/
def readSize : Reader Nat := fun cs =>
  match Json.scalar cs with
  | some (.number (.natural n), rest) => some (n.toNat, rest)
  | _ => none

/-- Reads an object member by member or an array item by item, threading a state. -/
def readRecord {σ : Type} (member : String → σ → Reader σ) (item : Nat → σ → Reader σ)
    (start : σ) : Reader σ
  | '\x7b' :: rest => Json.objectBody member start rest
  | '[' :: rest => do
    let ((_, state), rest) ← Json.arrayBody (fun (i, state) cs => do
      let (state, rest) ← item i state cs
      return ((i + 1, state), rest)) (0, start) rest
    return (state, rest)
  | _ => none

/-- Reads what may be given only once. -/
def once {α : Type} (given : Option α) (reader : Reader α) : Reader α := fun cs =>
  match given with
  | some _ => none
  | none => reader cs

/-- The depth limit, as the only member of a record of its own; nothing if it is not given. -/
def readDepth : Reader (Option Nat) :=
  let depth (given : Option Nat) : Reader (Option Nat) := fun cs => do
    let (n, rest) ← once given readSize cs
    return (some n, rest)
  readRecord
    (fun name given cs =>
      if name = "max_depth" then depth given cs
      else do
        let (_, rest) ← Json.skip cs
        return (given, rest))
    (fun i given cs => if i = 0 then depth given cs else none)
    none

/-- The settings that a text has given so far. -/
structure Draft where
  allowCompilation : Option Bool := none
  strict : Option Bool := none
  maxCacheSize : Option Nat := none
  maxDepth : Option (Option Nat) := none

namespace Draft

def setAllowCompilation (d : Draft) : Reader Draft := fun cs => do
  let (b, rest) ← once d.allowCompilation readFlag cs
  return ({ d with allowCompilation := some b }, rest)

def setStrict (d : Draft) : Reader Draft := fun cs => do
  let (b, rest) ← once d.strict readFlag cs
  return ({ d with strict := some b }, rest)

def setMaxCacheSize (d : Draft) : Reader Draft := fun cs => do
  let (n, rest) ← once d.maxCacheSize readSize cs
  return ({ d with maxCacheSize := some n }, rest)

def setMaxDepth (d : Draft) : Reader Draft := fun cs => do
  let (n, rest) ← once d.maxDepth readDepth cs
  return ({ d with maxDepth := some n }, rest)

/-- Reads the value of a member. -/
def member (name : String) (d : Draft) : Reader Draft := fun cs =>
  match name with
  | "allow_compilation" => d.setAllowCompilation cs
  | "strict" => d.setStrict cs
  | "max_cache_size" => d.setMaxCacheSize cs
  | "compiler" => d.setMaxDepth cs
  | _ => do
    let (_, rest) ← Json.skip cs
    return (d, rest)

/-- Reads the item of an array at a position. -/
def item (i : Nat) (d : Draft) : Reader Draft := fun cs =>
  match i with
  | 0 => d.setAllowCompilation cs
  | 1 => d.setStrict cs
  | 2 => d.setMaxCacheSize cs
  | 3 => d.setMaxDepth cs
  | _ => none

/-- The settings with the defaults filled in. -/
def complete (d : Draft) : Settings :=
  let defaults : Settings := {}
  { allowCompilation := d.allowCompilation.getD defaults.allowCompilation
    strict := d.strict.getD defaults.strict
    maxCacheSize := d.maxCacheSize.getD defaults.maxCacheSize
    maxDepth := (d.maxDepth.getD none).getD defaults.maxDepth }

end Draft

/-- The settings that a JSON text gives. -/
def parse? (text : String) : Option Settings :=
  (Json.whole? (readRecord Draft.member Draft.item {}) text).map Draft.complete

end Settings

end Formulary
