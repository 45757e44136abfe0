import Mathlib
import Formulary.Proofs.Navigation

/-! # Arrays and objects as handles

The methods of a container agree with one another and with indexing: `has` tells which keys lead
somewhere, `keys` lists them in the order of their bytes, and `len` is the number of keys, or the
bound of the positions.
-/

namespace Formulary

/-! ## The order of bytes -/

/-- The bytes of a text. -/
def utf8Bytes (s : String) : List UInt8 := s.toUTF8.data.toList

theorem utf8Bytes_eq (s : String) : utf8Bytes s = s.toList.flatMap String.utf8EncodeChar := by
  have hencode := congrArg (fun bytes => bytes.data.toList) (String.utf8Encode_toList (b := s))
  rw [List.utf8Encode, List.data_toByteArray] at hencode
  exact hencode.symm

/-- Bytes are compared from the first on. -/
theorem byte_cons_lt {x y : ℕ} (hx : x < 256) (hy : y < 256) {s t : List UInt8} (hle : x ≤ y)
    (hrest : x = y → s < t) : UInt8.ofNat x :: s < UInt8.ofNat y :: t := by
  rw [List.cons_lt_cons_iff]
  rcases hle.lt_or_eq with h | rfl
  · exact Or.inl ((UInt8.ofNat_lt_iff_lt hx hy).mpr h)
  · exact Or.inr ⟨rfl, hrest rfl⟩

/-- Of two characters the lesser one has the lesser bytes, whatever follows. -/
theorem utf8EncodeChar_append_lt {c d : Char} (h : c < d) (s t : List UInt8) :
    String.utf8EncodeChar c ++ s < String.utf8EncodeChar d ++ t := by
  have hlt : c.val.toNat < d.val.toNat := h
  have hbound : d.val.toNat < 0x110000 := by
    rcases d.valid with h | ⟨-, h⟩
    · exact h.trans (by decide)
    · exact h
  simp only [String.utf8EncodeChar]
  generalize c.val.toNat = v at *
  generalize d.val.toNat = w at *
  split_ifs <;> simp only [List.cons_append, List.nil_append]
  -- The first byte grows with the number of bytes; characters of as many bytes differ in a digit.
  all_goals
    repeat
      first
      | omega
      | refine byte_cons_lt (by omega) (by omega) (by omega) fun _ => ?_

theorem flatMap_utf8EncodeChar_lt {cs ds : List Char} (h : cs < ds) :
    cs.flatMap String.utf8EncodeChar < ds.flatMap String.utf8EncodeChar := by
  induction cs generalizing ds with
  | nil =>
      cases ds with
      | nil => exact absurd h (List.not_lt_nil _)
      | cons d ds =>
          obtain ⟨b, bytes, hbytes⟩ :=
            List.exists_cons_of_ne_nil (String.utf8EncodeChar_ne_nil (c := d))
          rw [List.flatMap_nil, List.flatMap_cons, hbytes]
          exact List.nil_lt_cons _ _
  | cons c cs ih =>
      cases ds with
      | nil => exact absurd h (List.not_lt_nil _)
      | cons d ds =>
          rw [List.flatMap_cons, List.flatMap_cons]
          rcases List.cons_lt_cons_iff.mp h with hlt | ⟨rfl, hrest⟩
          · exact utf8EncodeChar_append_lt hlt _ _
          · exact List.append_left_lt (ih hrest)

/-- Texts are in the order of their bytes. -/
theorem utf8Bytes_lt {s t : String} (h : s < t) : utf8Bytes s < utf8Bytes t := by
  rw [utf8Bytes_eq, utf8Bytes_eq]
  exact flatMap_utf8EncodeChar_lt (String.lt_iff_toList_lt.mp h)

/-! ## Parts of a container -/

namespace Json

theorem isSome_field?_iff (fields : List (String × Json)) (name : String) :
    (field? fields name).isSome = true ↔ name ∈ fields.map Prod.fst := by
  rw [field?, Option.isSome_map, List.find?_isSome, List.mem_map]
  simp only [beq_iff_eq]

/-- The key of a field leads somewhere; arrays have no keys. -/
theorem method_has (node : Json) (key : String) :
    node.method "has" [.string key] = .inl (.bool (node.child? (.key key)).isSome) := by
  cases node <;> rfl

/-- Positions are counted from zero up to the length, which fits into the signed integers. -/
theorem isSome_position_iff {items : List Json} (hfits : items.length < 2 ^ 63) (i : Int64) :
    ((array items).child? (.position i)).isSome = true ↔
      0 ≤ i ∧ i < Int64.ofNat items.length := by
  have hlength : (Int64.ofNat items.length).toInt = items.length := Int64.toInt_ofNat_of_lt hfits
  have hsign : i < 0 ↔ i.toInt < 0 := Int64.lt_iff_toInt_lt
  rw [Int64.le_iff_toInt_le, Int64.lt_iff_toInt_lt, hlength, Int64.toInt_zero, child?]
  by_cases hnegative : i < 0
  · have := hsign.mp hnegative
    rw [if_pos hnegative]
    exact iff_of_false Bool.false_ne_true (by omega)
  · have := hsign.not.mp hnegative
    rw [if_neg hnegative, isSome_getElem?]
    omega

end Json

namespace Value

/-- The parts of a document are known, `null` and numbers of any size among them. -/
theorem ofJson_ne_unknown (serial : ℕ) (document : Json) : ofJson serial document ≠ .unknown := by
  intro h
  cases document with
  | number n =>
      cases n with
      | natural n =>
          rw [ofJson] at h
          split at h <;> cases h
      | negative | double => cases h
  | null | bool | string | array | object => cases h

theorem Shows.ne_unknown_iff {part? : Option Json} {value : Value} (h : value.Shows part?) :
    value ≠ .unknown ↔ part?.isSome = true := by
  obtain ⟨serial, rfl⟩ := h
  cases part? with
  | none => exact iff_of_false (fun h => h rfl) Bool.false_ne_true
  | some part => exact iff_of_true (ofJson_ne_unknown serial part) rfl

end Value

/-! ## What a container answers -/

namespace Containers

variable {root node : Json} {levels serial : ℕ}

theorem method_yields {name : String} {args : List Value} {value : Value}
    (h : node.method name args = .inl value) (asValue : Bool) :
    (Program.method (.object (.node serial node)) name args asValue).Yields
      (.ofHost (.document root) (levels + 1)) (· = value) := by
  refine Navigation.request_yields_of_run (P := (· = value)) (fun w => ⟨value, w, ?_, rfl⟩) asValue
  rw [Host.documentAnswer, h]
  rfl

/-- The keys of an object are handed out as an array of their own. -/
theorem keys_yields (fields : List (String × Json)) (asValue : Bool) :
    (Program.method (.object (.node serial (.object fields))) "keys" [] asValue).Yields
      (.ofHost (.document root) (levels + 1)) fun keys =>
        ∃ fresh, keys = .object (.node fresh (.array ((fields.map Prod.fst).map .string))) := by
  have hanswer : Host.documentAnswer root (.method (.node serial (.object fields)) "keys" []) =
      .answerJson? (some (.array (fields.map fun field => .string field.1))) := rfl
  rw [List.map_map]
  exact Navigation.request_yields hanswer asValue

/-- An element is known where the step leads somewhere. -/
theorem index_yields (step : PathStep) (asValue : Bool) :
    (Program.index (.object (.node serial node)) [step.value] asValue).Yields
      (.ofHost (.document root) (levels + 1))
      fun part => part ≠ .unknown ↔ (node.child? step).isSome = true := by
  have hfollow : node.follow? [step.value] = node.child? step := by
    rw [Json.follow?, PathStep.step?_value]
    cases node.child? step <;> rfl
  have hyields : (Program.index (.object (.node serial node)) [step.value] asValue).Yields
      (.ofHost (.document root) (levels + 1)) (Value.Shows (node.child? step)) := by
    rw [← hfollow]
    exact Navigation.request_yields rfl asValue
  exact hyields.imp fun part hpart => hpart.ne_unknown_iff

theorem has_yields (key : String) (asValue : Bool) :
    (Program.method (.object (.node serial node)) "has" [.string key] asValue).Yields
      (.ofHost (.document root) (levels + 1)) (· = .bool (node.child? (.key key)).isSome) :=
  method_yields (node.method_has key) asValue

/-- What the methods of an object say of its keys: they are listed in the order of their bytes, they
are those that are there, and the lengths of the object and of the list count them. -/
structure TellsKeys (m : Machine) (asValue : Bool) (names : List String) (handle : Value) :
    Prop where
  ascending : names.Pairwise fun s t => utf8Bytes s < utf8Bytes t
  has_iff : ∀ key, key ∈ names ↔
    (Program.method handle "has" [.string key] asValue).Yields m (· = .bool true)
  len : (Program.method handle "len" [] asValue).Yields m (· = .int (Int64.ofNat names.length))
  keys : (Program.method handle "keys" [] asValue).Yields m fun keys =>
    (∃ serial, keys = .object (.node serial (.array (names.map .string)))) ∧
    (Program.method keys "len" [] asValue).Yields m (· = .int (Int64.ofNat names.length))

theorem TellsKeys.nodup {m : Machine} {asValue : Bool} {names : List String} {handle : Value}
    (h : TellsKeys m asValue names handle) : names.Nodup := by
  refine h.ascending.imp fun hlt heq => ?_
  subst heq
  exact List.lt_irrefl _ hlt

/-- An object whose fields are in order tells their names. -/
theorem tellsKeys {fields : List (String × Json)}
    (hascending : (fields.map Prod.fst).Pairwise (· < ·)) (asValue : Bool) :
    TellsKeys (.ofHost (.document root) (levels + 1)) asValue (fields.map Prod.fst)
      (.object (.node serial (.object fields))) where
  ascending := hascending.imp utf8Bytes_lt
  has_iff key := by
    rw [← Json.isSome_field?_iff]
    refine ⟨fun h => ?_, fun h => Value.bool.inj ((has_yields key asValue).eq h)⟩
    rw [← h]
    exact has_yields key asValue
  len := by
    rw [List.length_map]
    exact method_yields rfl asValue
  keys := by
    refine (keys_yields fields asValue).imp ?_
    rintro keys ⟨fresh, rfl⟩
    rw [← List.length_map Json.string]
    exact ⟨⟨fresh, rfl⟩, method_yields rfl asValue⟩

end Containers

/-- The methods of a container agree with one another and with indexing. A key is there if indexing
with it answers something; the keys of an object are listed once each, in the order of their bytes,
and counted by the length; an array has no keys, and its positions go up to its length. Memory holds
fewer items than there are signed integers. -/
theorem methods_agree_with_indexing (root : Json) (levels serial : ℕ) {node : Json}
    (hnode : node.WellFormed) (asValue : Bool) :
    let machine := Machine.ofHost (.document root) (levels + 1)
    let handle : Value := .object (.node serial node)
    let call (target : Value) (name : String) (args : List Value) :=
      Program.method target name args asValue
    let element (index : Value) := Program.index handle [index] asValue
    (∀ key, ∃ present, (call handle "has" [.string key]).Yields machine (· = .bool present) ∧
      (element (.string key)).Yields machine fun part => present = true ↔ part ≠ .unknown) ∧
    (∀ fields, node = .object fields → ∃ names : List String,
      names.Pairwise (fun s t => utf8Bytes s < utf8Bytes t) ∧ names.Nodup ∧
      (∀ key, key ∈ names ↔
        (call handle "has" [.string key]).Yields machine (· = .bool true)) ∧
      (call handle "len" []).Yields machine (· = .int (Int64.ofNat names.length)) ∧
      (call handle "keys" []).Yields machine fun keys =>
        (∃ serial, keys = .object (.node serial (.array (names.map .string)))) ∧
        (call keys "len" []).Yields machine (· = .int (Int64.ofNat names.length))) ∧
    ∀ items, node = .array items →
      (call handle "keys" []).Yields machine (· = .unknown) ∧
      (call handle "len" []).Yields machine (· = .int (Int64.ofNat items.length)) ∧
      (items.length < 2 ^ 63 → ∀ i, (element (.int i)).Yields machine fun part =>
        part ≠ .unknown ↔ 0 ≤ i ∧ i < Int64.ofNat items.length) := by
  intro machine handle call element
  refine ⟨fun key => ⟨_, Containers.has_yields key asValue, ?_⟩, fun fields hfields => ?_,
    fun items hitems => ?_⟩
  · exact (Containers.index_yields (.key key) asValue).imp fun part hpart => hpart.symm
  · subst hfields
    have htells : Containers.TellsKeys machine asValue (fields.map Prod.fst) handle :=
      Containers.tellsKeys hnode.1 asValue
    exact ⟨_, htells.ascending, htells.nodup, htells.has_iff, htells.len, htells.keys⟩
  · subst hitems
    refine ⟨Containers.method_yields rfl asValue, Containers.method_yields rfl asValue,
      fun hfits i => ?_⟩
    refine (Containers.index_yields (.position i) asValue).imp fun part hpart => ?_
    exact hpart.trans (Json.isSome_position_iff hfits i)

/-- A field that is `null` and an item past the signed integers. -/
theorem null_field_and_wide_item_known :
    let machine := Machine.ofHost (.document .null) 1
    let object : Json := .object [("a", .null), ("é", .bool true)]
    let array : Json := .array [.null, .number (.natural 18446744073709551615)]
    object.WellFormed ∧ array.WellFormed ∧
    (∃ names : List String, names.Nodup ∧ ∀ key, key ∈ names ↔
      (Program.method (.object (.node 0 object)) "has" [.string key] true).Yields machine
        (· = .bool true)) ∧
    (Program.index (.object (.node 0 array)) [.int 1] true).Yields machine (· ≠ .unknown) := by
  intro machine object array
  have hobject : object.WellFormed := ⟨by decide, trivial, trivial, trivial⟩
  have harray : array.WellFormed := ⟨trivial, trivial, trivial⟩
  obtain ⟨-, hkeys, -⟩ := methods_agree_with_indexing .null 0 0 hobject true
  obtain ⟨names, -, hnodup, hhas, -⟩ := hkeys _ rfl
  obtain ⟨-, -, hitems⟩ := methods_agree_with_indexing .null 0 0 harray true
  obtain ⟨-, -, hitems⟩ := hitems _ rfl
  refine ⟨hobject, harray, ⟨names, hnodup, hhas⟩, ?_⟩
  exact (hitems (by decide) 1).imp fun part hpart => hpart.mpr (by decide)

end Formulary
