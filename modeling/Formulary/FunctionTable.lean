import Formulary.Formula.References
import Formulary.Formula.Text

/-! # Tables of native functions and precompiled expressions -/

namespace Formulary

/-- The native functions and precompiled expressions that a reader knows, each name once in either
list. -/
structure FunctionTable where
  functions : List (Native Formula)
  precompiled : List (Precompiled Formula)

namespace FunctionTable

def empty : FunctionTable := ⟨[], []⟩

/-- Adds a function in place of the one with the same name. -/
def registerFunction (table : FunctionTable) (native : Native Formula) : FunctionTable :=
  { table with
    functions := (table.functions.filter fun other => other.name != native.name) ++ [native] }

/-- Adds a precompiled expression in place of the one with the same name. -/
def registerPrecompiled (table : FunctionTable) (expression : Precompiled Formula) :
    FunctionTable :=
  { table with
    precompiled :=
      (table.precompiled.filter fun other => other.name != expression.name) ++ [expression] }

/-- The function with a name. -/
def function? (table : FunctionTable) (name : String) : Option (Native Formula) :=
  table.functions.find? fun native => native.name == name

/-- The precompiled expression with a name. -/
def precompiled? (table : FunctionTable) (name : String) : Option (Precompiled Formula) :=
  table.precompiled.find? fun expression => expression.name == name

/-- The names of the functions in ascending order. -/
def functionNames (table : FunctionTable) : List String :=
  sortNames (table.functions.map Native.name)

/-- The names of the precompiled expressions in ascending order. -/
def precompiledNames (table : FunctionTable) : List String :=
  sortNames (table.precompiled.map Precompiled.name)

/-- How many entries there are of both kinds. -/
def size (table : FunctionTable) : Nat := table.functions.length + table.precompiled.length

/-- The table for diagnosis. -/
def outline (table : FunctionTable) : Text.Outline :=
  let names (ns : List String) := Text.Outline.list (ns.map fun n => .leaf (Text.quoted n))
  .record "FunctionRegistry"
    [("functions", names table.functionNames), ("precompiled", names table.precompiledNames)]

end FunctionTable

end Formulary
