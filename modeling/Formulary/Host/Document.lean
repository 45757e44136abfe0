import Formulary.Host
import Formulary.Json.Writer
import Formulary.Value.Json

/-! # A JSON document as a host

Variables are the fields of the document. Arrays and objects are handed out as handles, scalars as
values. Objects have their fields as members; both have the methods `len()`, `has(key)` and
`keys()`. Indexing takes positions in arrays and names of fields in objects, and several indices go
down step by step.
-/

namespace Formulary

namespace Json

/-- One step into a document: a position in an array or the name of a field in an object. -/
def step? : Json → Value → Option Json
  | array items, .int i => if 0 ≤ i then items[i.toInt.toNat]? else none
  | object fields, .string name => field? fields name
  | _, _ => none

/-- The part of a document reached step by step. -/
def follow? : Json → List Value → Option Json
  | document, [] => some document
  | document, index :: rest =>
    match document.step? index with
    | some part => part.follow? rest
    | none => none

/-- What a document answers to a method call: a document where containers may come out, and a value
otherwise. -/
def method (document : Json) (name : String) (args : List Value) : Value ⊕ Json :=
  match name, args, document with
  | "len", [], array items => .inl (.int (Int64.ofNat items.length))
  | "len", [], object fields => .inl (.int (Int64.ofNat fields.length))
  | "has", [.string key], object fields => .inl (.bool (field? fields key).isSome)
  | "has", [.string _], _ => .inl (.bool false)
  | "keys", [], object fields => .inr (array (fields.map fun field => string field.1))
  | _, _, _ => .inl .unknown

end Json

namespace Routine

variable {φ ε : Type}

/-- Answers the value of a document; a container becomes a handle that no other handle equals. -/
def answerJson : Json → Routine φ ε Value
  | document@(.array _) => fresh fun serial => done (Value.ofJson serial document)
  | document@(.object _) => fresh fun serial => done (Value.ofJson serial document)
  | document => done (Value.ofJson 0 document)

/-- Answers the value of a document if there is one. -/
def answerJson? : Option Json → Routine φ ε Value
  | some document => answerJson document
  | none => done .unknown

end Routine

namespace Host

/-- What a document answers to a request. -/
def documentAnswer (root : Json) : Request → Routine Formula String Value
  | .lookup name => .answerJson? (root.get? name)
  | .member (.node _ document) name => .answerJson? (document.get? name)
  | .method (.node _ document) name args =>
    match document.method name args with
    | .inl value => .done value
    | .inr result => .answerJson result
  | .index (.node _ document) indices => .answerJson? (document.follow? indices)
  | request => .done request.defaultAnswer

/-- The host of a document. -/
def document (root : Json) : Host := stateless (documentAnswer root) (.done root.pretty)

end Host

end Formulary
