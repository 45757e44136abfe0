import Formulary.Engine
import Formulary.Host.Document

/-! # The command line

Three commands: `evaluate` a formula on a JSON document, `parse` it and describe it, `validate` its
syntax. What a command prints and how it ends is a function of its arguments and of the files that
it reads.
-/

namespace Formulary.CommandLine

/-- A command with its options. -/
inductive Command where
  | evaluate (formula : String) (vars : Option String) (strict noCompile dump pretty : Bool)
  | parse (formula : String) (quiet : Bool)
  | validate (formula : String) (quiet : Bool)

/-- The arguments of the program, understood. -/
structure Invocation where
  config : Option String
  command : Command

/-! ## Arguments -/

/-- An option, wherever it is given. -/
inductive Flag where
  | config
  | verbose
  | vars
  | strict
  | noCompile
  | dump
  | pretty
  | quiet
deriving DecidableEq

namespace Flag

/-- Whether the option has a value. -/
def hasValue : Flag → Bool
  | config => true
  | vars => true
  | _ => false

/-- Whether the option goes with every command. -/
def isGlobal : Flag → Bool
  | config => true
  | verbose => true
  | _ => false

/-- The options of a command, besides those of all commands. -/
def ofCommand : String → Option (List Flag)
  | "evaluate" => some [vars, strict, noCompile, dump, pretty]
  | "parse" => some [quiet]
  | "validate" => some [quiet]
  | _ => none

def ofLong? : String → Option Flag
  | "config" => some config
  | "verbose" => some verbose
  | "vars" => some vars
  | "strict" => some strict
  | "no-compile" => some noCompile
  | "dump" => some dump
  | "pretty" => some pretty
  | "quiet" => some quiet
  | _ => none

def ofShort? : Char → Option Flag
  | 'c' => some config
  | 'v' => some verbose
  | 'p' => some pretty
  | 'q' => some quiet
  | _ => none

end Flag

/-- What the arguments have said so far. -/
structure Draft where
  command : Option String := none
  /-- The options given since the last word that could change their meaning, with their values. -/
  flags : List (Flag × String) := []
  /-- The options given before the command. -/
  outer : List (Flag × String) := []
  formula : Option String := none

namespace Draft

/-- Whether an option may be given here, and for the first time. -/
def allows (d : Draft) (flag : Flag) : Bool :=
  let known := match d.command with
    | none => []
    | some command => (Flag.ofCommand command).getD []
  (flag.isGlobal || known.contains flag) && !(d.flags.any fun given => given.1 == flag)

def give (d : Draft) (flag : Flag) (value : String) : Option Draft :=
  if d.allows flag then some { d with flags := (flag, value) :: d.flags } else none

/-- A word that is no option: the command, then the formula. -/
def word (d : Draft) (text : String) : Option Draft :=
  match d.command, d.formula with
  | none, _ =>
    if (Flag.ofCommand text).isSome then
      some { d with command := some text, outer := d.flags, flags := [] }
    else none
  | some _, none => some { d with formula := some text }
  | some _, some _ => none

def value? (d : Draft) (flag : Flag) : Option String :=
  ((d.flags ++ d.outer).find? fun given => given.1 == flag).map Prod.snd

def has (d : Draft) (flag : Flag) : Bool := (d.value? flag).isSome

/-- The invocation, once all arguments have been read. -/
def finish (d : Draft) : Option Invocation := do
  let command ← d.command
  let formula ← d.formula
  let command ← match command with
    | "evaluate" =>
      some (Command.evaluate formula (d.value? .vars) (d.has .strict) (d.has .noCompile)
        (d.has .dump) (d.has .pretty))
    | "parse" => some (.parse formula (d.has .quiet))
    | "validate" => some (.validate formula (d.has .quiet))
    | _ => none
  return ⟨d.value? .config, command⟩

end Draft

/-- A group of short options; the first one with a value takes the rest of the group for it, or the
next argument. Also tells whether the next argument was taken. -/
def readShort (d : Draft) (next : Option String) : List Char → Option (Draft × Bool)
  | [] => some (d, false)
  | c :: rest => do
    let flag ← Flag.ofShort? c
    if flag.hasValue then
      match rest with
      | [] => return (← d.give flag (← next), true)
      | '=' :: value => return (← d.give flag (String.ofList value), false)
      | value => return (← d.give flag (String.ofList value), false)
    else readShort (← d.give flag "") next rest

/-- Whether an argument can be the value of an option. -/
def isValue (argument : String) : Bool := argument == "-" || argument.toList.head? != some '-'

/-- A long option, with its value after an equals sign or as the next argument. -/
def readLong (d : Draft) (next : Option String) (text : List Char) : Option (Draft × Bool) := do
  let name := text.takeWhile (· != '=')
  let flag ← Flag.ofLong? (String.ofList name)
  match text.drop name.length with
  | _ :: value =>
    if flag.hasValue then return (← d.give flag (String.ofList value), false) else none
  | [] =>
    if flag.hasValue then return (← d.give flag (← next), true)
    else return (← d.give flag "", false)

/-- Reads the arguments from left to right; the number bounds how many. -/
def readArguments : Nat → Draft → List String → Option Draft
  | _, d, [] => some d
  | 0, _, _ :: _ => none
  | fuel + 1, d, argument :: rest =>
    let next := match rest with
      | value :: _ => if isValue value then some value else none
      | [] => none
    let go (step : Option (Draft × Bool)) : Option Draft := do
      let (d, taken) ← step
      readArguments fuel d (if taken then rest.drop 1 else rest)
    match argument.toList with
    | ['-', '-'] => rest.foldlM Draft.word d
    | '-' :: '-' :: text => go (readLong d next text)
    | '-' :: c :: text => go (readShort d next (c :: text))
    | _ => go ((d.word argument).map (·, false))

/-- The invocation that a list of arguments stands for. -/
def Invocation.ofArguments? (arguments : List String) : Option Invocation := do
  (← readArguments arguments.length {} arguments).finish

/-! ## Running -/

/-- Where a text comes from. -/
inductive Source where
  | file (path : String)
  | standardInput
deriving DecidableEq

/-- The texts that a command may read, or why they cannot be read. -/
abbrev Sources := Source → Except String String

/-- The source of the variables; a single dash is the standard input. -/
def Source.ofVars (argument : String) : Source :=
  if argument = "-" then standardInput else file argument

/-- How a command ends. -/
structure Output where
  exit : UInt8 := 0
  stdout : String := ""
  stderr : String := ""

/-- A command that fails with a message. -/
def Output.failure (message : String) : Output := { exit := 1, stderr := message ++ "\n" }

/-- The sources that an invocation reads. -/
def Invocation.sources (i : Invocation) : List Source :=
  i.config.toList.map Source.file ++ match i.command with
    | .evaluate _ vars _ _ _ _ => vars.toList.map Source.ofVars
    | _ => []

/-- The settings that an invocation asks for. -/
def loadSettings (sources : Sources) : Option String → Except String Settings
  | none => .ok {}
  | some path =>
    match sources (.file path) with
    | .error reason => .error ("cannot read '" ++ path ++ "': " ++ reason)
    | .ok text =>
      match Settings.parse? text with
      | some settings => .ok settings
      | none => .error ("invalid configuration in '" ++ path ++ "'")

/-- The document that provides the variables. -/
def loadVariables (sources : Sources) : Option String → Except String Json
  | none => .ok (.object [])
  | some argument =>
    match sources (Source.ofVars argument) with
    | .error reason =>
      .error (match Source.ofVars argument with
        | .standardInput => "cannot read stdin: " ++ reason
        | .file path => "cannot read '" ++ path ++ "': " ++ reason)
    | .ok text =>
      match Json.parse? text with
      | some document => .ok document
      | none => .error "variables must be a JSON document"

/-- Evaluates a formula on a document and prints the result as JSON. -/
def evaluate (settings : Settings) (root : Json) (formula : String) (dump pretty : Bool) : Output :=
  let engine : Engine := { settings := settings }
  match engine.parse formula {} with
  | (.error error, _) => .failure ("Error parsing formula: " ++ error.message)
  | (.ok tree, w) =>
    let (result, w) := engine.compute tree (.document root) w
    let trace := if dump then tree.trace "  " "\n" w else ""
    match result with
    | .ok value =>
      let text := if pretty then value.toJson.pretty else value.toJson.compact
      { stdout := text ++ "\n", stderr := trace }
    | .error (.unknownResult _) =>
      { exit := 2, stderr := trace ++ "Formula evaluated to unknown\n" }
    | .error error =>
      { exit := 1, stderr := trace ++ "Error evaluating formula: " ++ error.message ++ "\n" }

/-- What is said about a formula besides its tree. -/
def description (tree : Tree) (w : World) : List String :=
  let references := tree.formula.references
  let names (title : String) (ns : List String) : List String :=
    if ns.isEmpty then [] else [title ++ ": " ++ ", ".intercalate ns]
  ["Normalized: " ++ tree.formula.text,
   "Depth: " ++ toString tree.formula.depth,
   "Compiled: " ++ (if tree.isCompiled w then "true" else "false")] ++
  names "Variables" references.variables ++ names "Members" references.members ++
  names "Functions" references.functions ++ names "Methods" references.methods ++
  names "Precompiled" references.precompiled

/-- Reads a formula and describes it. -/
def parse (settings : Settings) (formula : String) (quiet : Bool) : Output :=
  let engine : Engine := { settings := settings }
  match engine.parse formula {} with
  | (.error error, _) => .failure ("✗ Parse error: " ++ error.message)
  | (.ok tree, w) =>
    if quiet then { stdout := tree.formula.text ++ "\n" }
    else
      let lines := ["✓ Formula parsed successfully"] ++ description tree w ++
        ["Tree: " ++ tree.formula.outline.pretty]
      { stdout := String.join (lines.map (· ++ "\n")) }

/-- Reads a formula and tells whether that worked. -/
def validate (settings : Settings) (formula : String) (quiet : Bool) : Output :=
  let engine : Engine := { settings := { settings with allowCompilation := false } }
  match engine.parse formula {} with
  | (.ok _, _) =>
    { stdout := if quiet then "VALID\n" else "✓ Formula is valid\nFormula: " ++ formula ++ "\n" }
  | (.error error, _) =>
    .failure (if quiet then "INVALID"
      else "✗ Invalid formula: " ++ error.message ++ "\nFormula: " ++ formula)

/-- Runs a command. -/
def run (sources : Sources) (i : Invocation) : Output :=
  match loadSettings sources i.config with
  | .error reason => .failure ("Error loading configuration: " ++ reason)
  | .ok settings =>
    match i.command with
    | .evaluate formula vars strict noCompile dump pretty =>
      let settings := { settings with
        strict := settings.strict || strict
        allowCompilation := settings.allowCompilation && !noCompile }
      match loadVariables sources vars with
      | .error reason => .failure ("Error loading variables: " ++ reason)
      | .ok root => evaluate settings root formula dump pretty
    | .parse formula quiet => parse settings formula quiet
    | .validate formula quiet => validate settings formula quiet

/-- What is said about arguments that make no sense. -/
def usage : String :=
  "usage: formulary [-c FILE] [-v] evaluate EXPR [--vars FILE] [--strict] [--no-compile]\n" ++
  "                                         [--dump] [-p]\n" ++
  "       formulary [-c FILE] [-v] parse EXPR [-q]\n" ++
  "       formulary [-c FILE] [-v] validate EXPR [-q]"

/-- What the program does with its arguments. -/
def respond (sources : Sources) (arguments : List String) : Output :=
  match Invocation.ofArguments? arguments with
  | some invocation => run sources invocation
  | none => { exit := 2, stderr := usage ++ "\n" }

end Formulary.CommandLine
