import Formulary.CommandLine

/-! # The program -/

section Program

open Formulary CommandLine

/-- Reads a text, or tells why it cannot be read. -/
def readSource (source : Source) : IO (Except String String) := do
  try
    match source with
    | .file path => return .ok (← IO.FS.readFile path)
    | .standardInput => return .ok (← (← IO.getStdin).readToEnd)
  catch error => return .error (toString error)

/-- Reads what the arguments ask for and prints what comes out. -/
def main (arguments : List String) : IO UInt32 := do
  let wanted := ((Invocation.ofArguments? arguments).map Invocation.sources).getD []
  let texts ← wanted.mapM fun source => return (source, ← readSource source)
  let sources : Sources := fun source =>
    match texts.find? fun text => text.1 == source with
    | some (_, text) => text
    | none => .error "not read"
  let output := respond sources arguments
  (← IO.getStdout).putStr output.stdout
  (← IO.getStderr).putStr output.stderr
  return output.exit.toUInt32

end Program
