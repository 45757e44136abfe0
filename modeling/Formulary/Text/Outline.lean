/-! # Structured diagnostic text

A tree of named records, tagged items and lists, written on one line or indented with one item per
line.
-/

namespace Formulary.Text

/-- A diagnostic document. -/
inductive Outline where
  /-- Text that is written as it is. -/
  | leaf (text : String)
  /-- A name and fields with names. -/
  | record (name : String) (fields : List (String × Outline))
  /-- A name and items without names. -/
  | tagged (name : String) (items : List Outline)
  | list (items : List Outline)
deriving Inhabited

namespace Outline

/-- The text with every line but the first moved four blanks to the right. -/
def indent (text : String) : String :=
  String.ofList
    (text.toList.flatMap fun c => if c = '\n' then '\n' :: List.replicate 4 ' ' else [c])

/-- Items between delimiters on one line. -/
def between (opener : String) (items : List String) (closer : String) : String :=
  opener ++ ", ".intercalate items ++ closer

/-- Items between delimiters, one to a line and each followed by a comma. -/
def stacked (opener : String) (items : List String) (closer : String) : String :=
  opener ++ "\n" ++ String.join (items.map fun item => "    " ++ indent item ++ ",\n") ++ closer

mutual

/-- The document on one line. -/
def compact : Outline → String
  | leaf text => text
  | record name fields => between (name ++ " \x7b ") (compactFields fields) " \x7d"
  | tagged name items => between (name ++ "(") (compactItems items) ")"
  | list items => between "[" (compactItems items) "]"

def compactItems : List Outline → List String
  | [] => []
  | item :: rest => compact item :: compactItems rest

def compactFields : List (String × Outline) → List String
  | [] => []
  | (name, item) :: rest => (name ++ ": " ++ compact item) :: compactFields rest

end

mutual

/-- The document with one field or item per line. -/
def pretty : Outline → String
  | leaf text => text
  | record name fields => stacked (name ++ " \x7b") (prettyFields fields) "\x7d"
  | tagged name items => stacked (name ++ "(") (prettyItems items) ")"
  | list [] => "[]"
  | list (item :: rest) => stacked "[" (pretty item :: prettyItems rest) "]"

def prettyItems : List Outline → List String
  | [] => []
  | item :: rest => pretty item :: prettyItems rest

def prettyFields : List (String × Outline) → List String
  | [] => []
  | (name, item) :: rest => (name ++ ": " ++ pretty item) :: prettyFields rest

end

end Outline

end Formulary.Text
