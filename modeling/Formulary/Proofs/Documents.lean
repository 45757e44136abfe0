import Mathlib
import Formulary.Json.Reader
import Formulary.Proofs.Containers

/-! # Documents that are read

The fields of an object are put in their places as they are read, and a name that comes again takes
the place of the first. So every object of a document that was read lists its fields in ascending
order, each name once, and so does every part that a path leads to. What the methods of an object
say of its keys holds of all of them.
-/

namespace Formulary

namespace Json

theorem allWellFormed_iff (items : List Json) :
    AllWellFormed items ↔ ∀ item ∈ items, item.WellFormed := by
  induction items with
  | nil => exact iff_of_true trivial (List.forall_mem_nil _)
  | cons item items ih => rw [AllWellFormed, ih, List.forall_mem_cons]

theorem fieldsWellFormed_iff (fields : List (String × Json)) :
    FieldsWellFormed fields ↔ ∀ field ∈ fields, field.2.WellFormed := by
  induction fields with
  | nil => exact iff_of_true trivial (List.forall_mem_nil _)
  | cons field fields ih =>
      obtain ⟨name, item⟩ := field
      rw [FieldsWellFormed, ih, List.forall_mem_cons]

/-! ## Parts -/

theorem WellFormed.child? {document part : Json} (h : document.WellFormed) {step : PathStep}
    (hpart : document.child? step = some part) : part.WellFormed := by
  cases step with
  | position i =>
      cases document with
      | array items =>
          rw [Json.child?] at hpart
          split at hpart
          · cases hpart
          · exact (allWellFormed_iff items).mp h part (List.mem_of_getElem? hpart)
      | null | bool | number | string | object => cases hpart
  | key name =>
      cases document with
      | object fields =>
          obtain ⟨field, hfield, rfl⟩ := Option.map_eq_some_iff.mp hpart
          exact (fieldsWellFormed_iff fields).mp h.2 field (List.mem_of_find?_eq_some hfield)
      | null | bool | number | string | array => cases hpart

/-- Every part of a well-formed document is well-formed. -/
theorem WellFormed.part? {document part : Json} (h : document.WellFormed) {path : List PathStep}
    (hpart : document.part? path = some part) : part.WellFormed := by
  induction path generalizing document with
  | nil =>
      obtain rfl := Option.some.inj hpart
      exact h
  | cons step path ih =>
      rw [Json.part?, List.foldlM_cons] at hpart
      obtain ⟨child, hchild, hpart⟩ := Option.bind_eq_some_iff.mp hpart
      exact ih (h.child? hchild) hpart

/-! ## Fields in their places -/

theorem mem_insertField {name : String} {value : Json} {fields : List (String × Json)}
    {field : String × Json} (h : field ∈ insertField name value fields) :
    field = (name, value) ∨ field ∈ fields := by
  induction fields with
  | nil => exact Or.inl (List.mem_singleton.mp h)
  | cons first fields ih =>
      obtain ⟨other, old⟩ := first
      rw [insertField] at h
      split at h
      · exact List.mem_cons.mp h
      · split at h
        · exact (List.mem_cons.mp h).imp_right (List.mem_cons_of_mem _)
        · rcases List.mem_cons.mp h with rfl | h
          · exact Or.inr List.mem_cons_self
          · exact (ih h).imp_right (List.mem_cons_of_mem _)

/-- A field is put between the lesser names and the greater ones. -/
theorem insertField_ascending (name : String) (value : Json) {fields : List (String × Json)}
    (h : (fields.map Prod.fst).Pairwise (· < ·)) :
    ((insertField name value fields).map Prod.fst).Pairwise (· < ·) := by
  induction fields with
  | nil => exact List.pairwise_singleton _ _
  | cons first fields ih =>
      obtain ⟨other, old⟩ := first
      obtain ⟨hfirst, hrest⟩ := List.pairwise_cons.mp h
      rw [insertField]
      split
      · next hlt =>
        refine List.pairwise_cons.mpr ⟨fun later hlater => ?_, h⟩
        rcases List.mem_cons.mp hlater with rfl | hlater
        · exact hlt
        · exact hlt.trans (hfirst later hlater)
      · next hlt =>
        split
        · next heq =>
          rw [eq_of_beq heq]
          exact h
        · next hne =>
          have hafter : other < name :=
            lt_of_le_of_ne (not_lt.mp hlt) fun heq => hne (beq_iff_eq.mpr heq.symm)
          refine List.pairwise_cons.mpr ⟨fun later hlater => ?_, ih hrest⟩
          obtain ⟨field, hfield, rfl⟩ := List.mem_map.mp hlater
          rcases mem_insertField hfield with rfl | hfield
          · exact hafter
          · exact hfirst _ (List.mem_map_of_mem hfield)

theorem WellFormed.insertField {fields : List (String × Json)} (h : (object fields).WellFormed)
    (name : String) {value : Json} (hvalue : value.WellFormed) :
    (object (insertField name value fields)).WellFormed := by
  refine ⟨insertField_ascending name value h.1, (fieldsWellFormed_iff _).mpr fun field hfield => ?_⟩
  rcases mem_insertField hfield with rfl | hfield
  · exact hvalue
  · exact (fieldsWellFormed_iff fields).mp h.2 field hfield

/-! ## Reading -/

section Readers

variable {α σ : Type} {P : σ → Prop}

/-- Whatever the reader reads is of a kind. -/
def Reader.Gives (read : Reader α) (P : α → Prop) : Prop :=
  ∀ {cs : List Char} {a : α} {rest : List Char}, read cs = some (a, rest) → P a

theorem items_gives {item : σ → Reader σ} (hitem : ∀ state, P state → (item state).Gives P)
    (fuel : Nat) {state : σ} (hstate : P state) : Reader.Gives (items item fuel state) P := by
  induction fuel generalizing state with
  | zero =>
      intro cs a rest h
      cases h
  | succ fuel ih =>
      intro cs a rest h
      rw [items] at h
      obtain ⟨⟨next, after⟩, hread, h⟩ := Option.bind_eq_some_iff.mp h
      have hnext := hitem state hstate hread
      simp only at h
      split at h
      · exact ih hnext h
      · cases h
        exact hnext
      · cases h

theorem arrayBody_gives {item : σ → Reader σ} (hitem : ∀ state, P state → (item state).Gives P)
    {start : σ} (hstart : P start) : Reader.Gives (arrayBody item start) P := by
  intro cs a rest h
  rw [arrayBody] at h
  split at h
  · cases h
    exact hstart
  · exact items_gives hitem _ hstart h

theorem members_gives {member : String → σ → Reader σ}
    (hmember : ∀ name state, P state → (member name state).Gives P) (fuel : Nat) {state : σ}
    (hstate : P state) : Reader.Gives (members member fuel state) P := by
  induction fuel generalizing state with
  | zero =>
      intro cs a rest h
      cases h
  | succ fuel ih =>
      intro cs a rest h
      rw [members] at h
      split at h
      · obtain ⟨⟨name, after⟩, -, h⟩ := Option.bind_eq_some_iff.mp h
        simp only at h
        split at h
        · obtain ⟨⟨next, after⟩, hread, h⟩ := Option.bind_eq_some_iff.mp h
          have hnext := hmember name state hstate hread
          simp only at h
          split at h
          · exact ih hnext h
          · cases h
            exact hnext
          · cases h
        · cases h
      · cases h

theorem objectBody_gives {member : String → σ → Reader σ}
    (hmember : ∀ name state, P state → (member name state).Gives P) {start : σ}
    (hstart : P start) : Reader.Gives (objectBody member start) P := by
  intro cs a rest h
  rw [objectBody] at h
  split at h
  · cases h
    exact hstart
  · exact members_gives hmember _ hstart h

end Readers

theorem scalar_gives : scalar.Gives WellFormed := by
  intro cs a rest h
  unfold scalar at h
  split at h
  case h_5 =>
    obtain ⟨_, -, h⟩ := Option.bind_eq_some_iff.mp h
    obtain ⟨number, -, heq⟩ := Option.bind_eq_some_iff.mp h
    cases heq
    trivial
  all_goals
    obtain ⟨_, -, heq⟩ := Option.map_eq_some_iff.mp h
    cases heq
    trivial

theorem value_gives (depth : Nat) : (value depth).Gives WellFormed := by
  induction depth with
  | zero =>
      intro cs a rest h
      unfold value at h
      split at h
      · cases h
      · cases h
      · exact scalar_gives h
  | succ depth ih =>
      intro cs a rest h
      unfold value at h
      split at h
      · obtain ⟨⟨reversed, after⟩, hread, heq⟩ := Option.bind_eq_some_iff.mp h
        cases heq
        have hall : ∀ item ∈ reversed, item.WellFormed := by
          refine arrayBody_gives (P := fun done => ∀ item ∈ done, item.WellFormed)
            (fun done hdone => ?_) (List.forall_mem_nil _) hread
          intro cs next rest h
          obtain ⟨⟨item, after⟩, hitem, heq⟩ := Option.bind_eq_some_iff.mp h
          cases heq
          exact List.forall_mem_cons.mpr ⟨ih hitem, hdone⟩
        exact (allWellFormed_iff _).mpr fun item hitem => hall item (List.mem_reverse.mp hitem)
      · obtain ⟨⟨fields, after⟩, hread, heq⟩ := Option.bind_eq_some_iff.mp h
        cases heq
        have hnone : (object []).WellFormed := ⟨List.Pairwise.nil, trivial⟩
        refine objectBody_gives (P := fun fields => (object fields).WellFormed)
          (fun name fields hfields => ?_) hnone hread
        intro cs next rest h
        obtain ⟨⟨item, after⟩, hitem, heq⟩ := Option.bind_eq_some_iff.mp h
        cases heq
        exact hfields.insertField name (ih hitem)
      · exact scalar_gives h

/-- A document that was read is well-formed. -/
theorem parse?_wellFormed {text : String} {document : Json} (h : parse? text = some document) :
    document.WellFormed := by
  rw [parse?, whole?] at h
  obtain ⟨⟨result, rest⟩, hread, h⟩ := Option.bind_eq_some_iff.mp h
  simp only at h
  split at h
  · cases h
    exact value_gives nestingLimit hread
  · cases h

end Json

/-- In a document that was read, the handle of an object that a path leads to tells its keys. -/
theorem navigation_tellsKeys {text : String} {root : Json} (hread : Json.parse? text = some root)
    {name : String} {links : List Link} {fields : List (String × Json)}
    (hpart : root.part? (.key name :: links.flatMap Link.steps) = some (.object fields))
    (levels : Nat) (layout : Layout) (asValue : Bool) :
    let machine := Machine.ofHost (.document root) (levels + 1)
    ((navigation name links).evaluate layout asValue).Yields machine
      (Containers.TellsKeys machine asValue (fields.map Prod.fst)) := by
  have hobject : (Json.object fields).WellFormed := (Json.parse?_wellFormed hread).part? hpart
  refine (Navigation.navigation_yields name links layout asValue).imp ?_
  rintro handle ⟨serial, rfl⟩
  rw [hpart]
  exact Containers.tellsKeys hobject.1 asValue

end Formulary
