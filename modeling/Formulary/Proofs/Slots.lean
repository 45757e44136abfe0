import Formulary.Proofs.Faults
import Formulary.Proofs.Session

/-! # What lowering leaves in the slots

A slot is filled once. Lowering a node settles its slot for good, with code if it reports success
and with a failure if not, whatever was lowered before and within whatever limits. A node has code
only if the operands that its code runs have code, too.
-/

namespace Formulary

/-- Whether the code of the node runs the code of its operand at a position. -/
def Formula.calls : Formula → Nat → Bool
  | apply op _ _, i => op.form.calls i
  | _, _ => false

/-! ## Slots that only grow -/

/-- Filled slots stay as they are. -/
def Slots.Extends (slots later : Slots) : Prop :=
  ∀ (cell : Cell) (slot : Slot), slots[cell]? = some slot → later[cell]? = some slot

/-- The operands that the code of the root runs have code. -/
def Tree.Supported (tree : Tree) (slots : Slots) : Prop :=
  ∀ i < tree.formula.operands.length, tree.formula.calls i = true →
    ∃ code, slots.code? (tree.layout.below i).root = some code

/-- No node has code without the operands that its code runs. -/
def Slots.Closed (slots : Slots) (nodes : Set Tree) : Prop :=
  ∀ tree ∈ nodes, ∀ code, slots.code? tree.cell = some code → tree.Supported slots

/-- What an outcome leaves in a slot. -/
def Slot.ofOutcome : Except LoweringError Code → Slot
  | .ok code => .ready code
  | .error _ => .failed

/-- Whether there is code in the slot. -/
def Slot.isReady : Slot → Bool
  | ready _ => true
  | failed => false

theorem Slot.isReady_ofOutcome (outcome : Except LoweringError Code) :
    (ofOutcome outcome).isReady = outcome.isOk := by
  cases outcome <;> rfl

namespace Slots

variable {slots later last : Slots}

namespace Extends

theorem refl (slots : Slots) : slots.Extends slots := fun _ _ hslot => hslot

theorem trans (h : slots.Extends later) (h' : later.Extends last) : slots.Extends last :=
  fun cell slot hslot => h' cell slot (h cell slot hslot)

theorem code? (h : slots.Extends later) {cell : Cell} {code : Code}
    (hcode : slots.code? cell = some code) : later.code? cell = some code :=
  code?_eq_some_iff.mpr (h cell _ (code?_eq_some_iff.mp hcode))

theorem fill (slots : Slots) (cell : Cell) (slot : Slot) :
    slots.Extends (slots.fill cell slot) := by
  intro other held hheld
  rw [getElem?_fill, if_neg, hheld]
  rintro ⟨hempty, rfl⟩
  rw [hempty] at hheld
  cases hheld

end Extends

end Slots

theorem Tree.Supported.mono {tree : Tree} {slots later : Slots} (h : tree.Supported slots)
    (hlater : slots.Extends later) : tree.Supported later := by
  intro i hi hcalls
  obtain ⟨code, hcode⟩ := h i hi hcalls
  exact ⟨code, hlater.code? hcode⟩

namespace Slots.Closed

variable {nodes : Set Tree} {slots later : Slots}

/-- A node may get code when its operands have theirs. -/
theorem fill (h : slots.Closed nodes) (hforest : IsForest nodes) {tree : Tree}
    (htree : tree ∈ nodes) {slot : Slot}
    (hslot : ∀ code, slot = .ready code → tree.Supported slots) :
    (slots.fill tree.cell slot).Closed nodes := by
  have hextends := Extends.fill slots tree.cell slot
  intro node hnode code hcode
  rw [code?_eq_some_iff, getElem?_fill] at hcode
  split at hcode
  next hfilled =>
    obtain rfl := hforest.eq_of_cell_eq htree hnode hfilled.2
    exact (hslot code (Option.some.inj hcode)).mono hextends
  next => exact (h node hnode code (code?_eq_some_iff.mpr hcode)).mono hextends

/-- Only the slots of the nodes matter. -/
theorem congr (h : slots.Closed nodes) (hforest : IsForest nodes)
    (hsame : ∀ node ∈ nodes, later[node.cell]? = slots[node.cell]?) : later.Closed nodes := by
  intro tree htree code hcode i hi hcalls
  rw [code?_eq_some_iff, hsame tree htree, ← code?_eq_some_iff] at hcode
  obtain ⟨code, hcode⟩ := h tree htree code hcode i hi hcalls
  have hoperand := hforest.operand_mem htree (List.getElem?_eq_getElem hi)
  refine ⟨code, ?_⟩
  rw [code?_eq_some_iff] at hcode ⊢
  exact (hsame _ hoperand).trans hcode

end Slots.Closed

namespace Lowering

variable {α β : Type} {nodes : Set Tree} {cells : Set Cell} {slots : Slots}

/-- How a step ends that leads from closed slots to closed slots, empties none and fills none but
those of `cells`; what it answers meets the condition. -/
structure Advances (nodes : Set Tree) (cells : Set Cell) (slots : Slots)
    (ending : Except LoweringError α × Slots) (post : α → Slots → Prop) : Prop where
  closed : ending.2.Closed nodes
  grows : slots.Extends ending.2
  same : slots.SameOutside ending.2 cells
  answers : ∀ a, ending.1 = .ok a → post a ending.2

namespace Advances

variable {step : Lowering α} {post : α → Slots → Prop} {goal : β → Slots → Prop}

theorem pure (hclosed : slots.Closed nodes) {a : α} (ha : post a slots) :
    Advances nodes cells slots (Lowering.pure a slots) post where
  closed := hclosed
  grows := .refl slots
  same := .refl slots cells
  answers := by
    rintro _ ⟨⟩
    exact ha

theorem fail (hclosed : slots.Closed nodes) (error : LoweringError) :
    Advances nodes cells slots (Lowering.fail error slots) post where
  closed := hclosed
  grows := .refl slots
  same := .refl slots cells
  answers _ ha := by cases ha

theorem mono {ending : Except LoweringError α × Slots} {more : Set Cell}
    (h : Advances nodes cells slots ending post) (hsubset : cells ⊆ more) :
    Advances nodes more slots ending post :=
  ⟨h.closed, h.grows, h.same.mono hsubset, h.answers⟩

/-- What was in the slots before is there afterwards. -/
theorem imp {ending : Except LoweringError α × Slots} {weaker : α → Slots → Prop}
    (h : Advances nodes cells slots ending post)
    (himp : ∀ a later, slots.Extends later → post a later → weaker a later) :
    Advances nodes cells slots ending weaker :=
  ⟨h.closed, h.grows, h.same, fun a ha => himp a ending.2 h.grows (h.answers a ha)⟩

/-- One step after another. -/
theorem bind {next : α → Lowering β} (h : Advances nodes cells slots (step slots) post)
    (hnext : ∀ a later, later.Closed nodes → post a later →
      Advances nodes cells later (next a later) goal) :
    Advances nodes cells slots (step.bind next slots) goal := by
  unfold Lowering.bind
  cases hrun : step slots with
  | mk outcome later =>
      rw [hrun] at h
      cases outcome with
      | ok a =>
          have hlater := hnext a later h.closed (h.answers a rfl)
          exact ⟨hlater.closed, h.grows.trans hlater.grows, h.same.trans hlater.same,
            hlater.answers⟩
      | error error => exact ⟨h.closed, h.grows, h.same, fun b hb => by cases hb⟩

end Advances

/-- How lowering a node ends: its slot tells the outcome. -/
structure Settles (nodes : Set Tree) (tree : Tree) (slots : Slots)
    (ending : Except LoweringError Code × Slots) : Prop where
  closed : ending.2.Closed nodes
  grows : slots.Extends ending.2
  same : slots.SameOutside ending.2 tree.cells
  slot_eq : ending.2[tree.cell]? = some (.ofOutcome ending.1)

namespace Settles

variable {tree : Tree}

/-- A slot that was filled before is left alone. -/
theorem of_filled (hclosed : slots.Closed nodes) {outcome : Except LoweringError Code}
    (hslot : slots[tree.cell]? = some (.ofOutcome outcome)) :
    Settles nodes tree slots (outcome, slots) :=
  ⟨hclosed, .refl slots, .refl slots tree.cells, hslot⟩

/-- An empty slot is filled with the outcome. -/
theorem fill (hforest : IsForest nodes) (htree : tree ∈ nodes)
    (hempty : slots[tree.cell]? = none) {outcome : Except LoweringError Code} {later : Slots}
    (h : Advances nodes tree.cellsBelow slots (outcome, later) fun _ later =>
      tree.Supported later) :
    Settles nodes tree slots (outcome, later.fill tree.cell (.ofOutcome outcome)) where
  closed := by
    refine h.closed.fill hforest htree fun code hcode => ?_
    cases outcome with
    | ok code => exact h.answers code rfl
    | error error => cases hcode
  grows := h.grows.trans (.fill later tree.cell _)
  same := by
    rw [← tree.insert_cellsBelow]
    exact (h.same.mono (Set.subset_insert _ _)).trans (Slots.sameOutside_fill _ _ _)
  slot_eq := by
    have hstill := h.same _ (hforest.cell_notMem_cellsBelow htree)
    rw [Slots.getElem?_fill, if_pos ⟨hstill.trans hempty, rfl⟩]

/-- A node whose operands are lowered first. -/
theorem once (hforest : IsForest nodes) (htree : tree ∈ nodes) (hclosed : slots.Closed nodes)
    (text : String) {step : Lowering Code} (h : Advances nodes tree.cellsBelow slots (step slots)
      fun _ later => tree.Supported later) :
    Settles nodes tree slots (Lowering.once tree.cell text step slots) := by
  unfold Lowering.once
  split
  next hheld => exact of_filled hclosed hheld
  next hheld => exact of_filled hclosed hheld
  next hempty =>
    cases hrun : step slots with
    | mk outcome later =>
        rw [hrun] at h
        cases outcome with
        | ok code => exact fill hforest htree hempty h
        | error error => exact fill hforest htree hempty h

/-- A node that was lowered successfully has code. -/
theorem advances {ending : Except LoweringError Code × Slots}
    (h : Settles nodes tree slots ending) : Advances nodes tree.cells slots ending
      fun _ later => ∃ code, later.code? tree.cell = some code := by
  refine ⟨h.closed, h.grows, h.same, fun code hcode => ⟨code, ?_⟩⟩
  rw [Slots.code?_eq_some_iff, h.slot_eq, hcode]
  rfl

end Settles

end Lowering

namespace Formula

open Lowering (kept Advances Settles)

variable {nodes : Set Tree} {cells : Set Cell} {slots : Slots}

theorem kept_advances {layout : Layout} {step : Lowering Code} {post : Slots → Prop}
    (h : Advances nodes cells slots (step slots) fun _ later => post later) :
    Advances nodes cells slots (kept layout step slots) fun _ later => post later :=
  h.bind fun _ _ hclosed hpost => .pure hclosed hpost

/-- Lowering the operands of a node one after another fails or leaves all of them with code. -/
theorem lowerOperands_advances {layout : Layout} {form : Form} (operands : List Formula) (i : Nat)
    (hoperands : ∀ j (hj : j < operands.length) (slots : Slots), slots.Closed nodes →
      Advances nodes cells slots (operands[j].lower (layout.below (i + j)) slots) fun _ later =>
        ∃ code, later.code? (layout.below (i + j)).root = some code)
    (hclosed : slots.Closed nodes) :
    Advances nodes cells slots (lowerOperands layout form i operands slots) fun _ later =>
      ∀ j < operands.length, form.calls (i + j) = true →
        ∃ code, later.code? (layout.below (i + j)).root = some code := by
  induction operands generalizing i slots with
  | nil => exact .pure hclosed fun j hj => absurd hj (Nat.not_lt_zero j)
  | cons operand rest ih =>
      have hrest {slots : Slots} (hclosed : slots.Closed nodes) := by
        refine ih (i + 1) (fun j hj => ?_) hclosed
        have htail := hoperands (j + 1) (by simpa using hj)
        rwa [show i + (j + 1) = i + 1 + j by omega] at htail
      have hjoin (later : Slots)
          (hhead : form.calls i = true → ∃ code, later.code? (layout.below i).root = some code)
          (htail : ∀ j < rest.length, form.calls (i + 1 + j) = true →
            ∃ code, later.code? (layout.below (i + 1 + j)).root = some code) :
          ∀ j < (operand :: rest).length, form.calls (i + j) = true →
            ∃ code, later.code? (layout.below (i + j)).root = some code := by
        rintro (_ | j) hj hcalls
        · exact hhead hcalls
        · rw [show i + (j + 1) = i + 1 + j by omega] at hcalls ⊢
          exact htail j (Nat.lt_of_succ_lt_succ hj) hcalls
      cases hcalls : form.calls i with
      | true =>
          rw [lowerOperands_cons hcalls]
          refine (kept_advances (hoperands 0 (Nat.succ_pos _) slots hclosed)).bind ?_
          rintro - middle hmiddle ⟨code, hcode⟩
          -- The operands after this one leave its code where it is.
          refine ((hrest hmiddle).imp fun _ later hgrows htail =>
            hjoin later (fun _ => ⟨code, hgrows.code? hcode⟩) htail).bind ?_
          exact fun _ _ hlater hall => .pure hlater hall
      | false =>
          rw [lowerOperands_skip hcalls]
          refine (hrest hclosed).imp fun _ later _ htail => hjoin later ?_ htail
          rw [hcalls]
          exact fun hfalse => absurd hfalse Bool.false_ne_true

/-- A filled slot is all that is looked at. -/
theorem lower_of_filled (formula : Formula) {layout : Layout} {slot : Slot}
    (hslot : slots[layout.root]? = some slot) :
    ∃ outcome, formula.lower layout slots = (outcome, slots) ∧ slot = .ofOutcome outcome := by
  obtain ⟨text, step, hlower⟩ : ∃ text step, formula.lower layout =
      .once layout.root text step := by
    cases formula with
    | constant | identifier | precompiled => exact ⟨_, _, rfl⟩
    | apply op native operands =>
        obtain ⟨code, hlower⟩ := lower_apply layout op native operands
        exact ⟨_, _, hlower⟩
  rw [hlower, Lowering.once, hslot]
  cases slot with
  | ready code => exact ⟨.ok code, rfl, rfl⟩
  | failed => exact ⟨_, rfl, rfl⟩

/-- Lowering a node of a forest settles its slot. -/
theorem lower_settles (hforest : IsForest nodes) (formula : Formula) (layout : Layout)
    (hnode : (⟨formula, layout⟩ : Tree) ∈ nodes) (hclosed : slots.Closed nodes) :
    Settles nodes ⟨formula, layout⟩ slots (formula.lower layout slots) := by
  induction formula using induct generalizing layout slots with
  | constant value =>
      exact .once hforest hnode hclosed _ (.pure hclosed fun i hi => absurd hi (Nat.not_lt_zero i))
  | identifier name =>
      exact .once hforest hnode hclosed _ (.pure hclosed fun i hi => absurd hi (Nat.not_lt_zero i))
  | precompiled expression =>
      exact .once hforest hnode hclosed _ (.pure hclosed fun i hi => absurd hi (Nat.not_lt_zero i))
  | apply op native operands ih =>
      obtain ⟨code, hlower⟩ := lower_apply layout op native operands
      rw [hlower]
      refine .once hforest hnode hclosed _ ?_
      cases op.fault? operands with
      | some fault => exact .fail hclosed _
      | none =>
          have hoperands : Advances nodes (Tree.cellsBelow ⟨apply op native operands, layout⟩) slots
              (lowerOperands layout op.form 0 operands slots) fun _ later =>
                ∀ j < operands.length, op.form.calls (0 + j) = true →
                  ∃ code, later.code? (layout.below (0 + j)).root = some code := by
            refine lowerOperands_advances operands 0 (fun j hj slots hclosed => ?_) hclosed
            rw [Nat.zero_add]
            have hoperand : (apply op native operands).operands[j]? = some operands[j] :=
              List.getElem?_eq_getElem hj
            have hsettles := ih operands[j] (List.getElem_mem hj) (layout.below j)
              (hforest.operand_mem hnode hoperand) hclosed
            refine hsettles.advances.mono ?_
            exact @Tree.cells_subset_cellsBelow ⟨apply op native operands, layout⟩ _ _ hoperand
          refine hoperands.bind fun _ _ hlater hall => .pure hlater fun j hj hcalls => ?_
          have hcode := hall j hj (by rw [Nat.zero_add]; exact hcalls)
          rwa [Nat.zero_add] at hcode

end Formula

namespace Tree

open Lowering (Settles)

variable {nodes : Set Tree} {tree : Tree} {w : World}

/-- A limit on the depth matters to an empty slot only, and fills it. -/
theorem lower_settles (hforest : IsForest nodes) (htree : tree ∈ nodes) {slots : Slots}
    (hclosed : slots.Closed nodes) (limit : Nat) :
    Settles nodes tree slots (tree.lower limit slots) := by
  have hlower := tree.formula.lower_settles hforest tree.layout htree hclosed
  unfold lower
  split
  next => exact hlower
  next hempty =>
    by_cases hdeep : limit < tree.formula.depth
    · simp only [hdeep, if_true]
      exact .fill hforest htree hempty (.fail hclosed _)
    · simp only [hdeep, if_false]
      exact hlower

/-- Lowering a tree for evaluation is lowering it and keeping the reason of a failure in the log. -/
theorem compile_eq_tryCompile (tree : Tree) (limit : Nat) (w : World) :
    (tree.compile limit w).1 = (tree.tryCompile limit w).1.isOk ∧
      (tree.compile limit w).2.slots = (tree.tryCompile limit w).2.slots := by
  cases hslot : w.slots[tree.cell]? with
  | some slot =>
      obtain ⟨outcome, hlower, rfl⟩ := tree.formula.lower_of_filled hslot
      have htry : tree.tryCompile limit w = (outcome, w) := by
        simp only [tryCompile, lower, hslot, hlower]
      rw [htry, compile, hslot]
      cases outcome <;> exact ⟨rfl, rfl⟩
  | none =>
      rw [compile, hslot]
      simp only
      cases htry : tree.tryCompile limit w with
      | mk outcome later => cases outcome <;> exact ⟨rfl, rfl⟩

end Tree

/-! ## Worlds -/

/-- What can be done to a tree that exists. -/
inductive Treatment where
  | compile (limit : Nat)
  | tryCompile (limit : Nat)
  | evaluate (host : Host) (levels : Nat) (asValue : Bool)
  | tryEvaluate (host : Host) (levels : Nat) (asValue : Bool)

namespace Treatment

/-- The world afterwards. -/
def apply (tree : Tree) (w : World) : Treatment → World
  | compile limit => (tree.compile limit w).2
  | tryCompile limit => (tree.tryCompile limit w).2
  | evaluate host levels asValue => (tree.calcChecked (.ofHost host levels) asValue w).2
  | tryEvaluate host levels asValue =>
    ((tree.program w.slots asValue).run (.ofHost host levels) w).2

/-- Whether lowering reports success. -/
def report? (tree : Tree) (w : World) : Treatment → Option Bool
  | compile limit => some (tree.compile limit w).1
  | tryCompile limit => some (tree.tryCompile limit w).1.isOk
  | evaluate _ _ _ => none
  | tryEvaluate _ _ _ => none

end Treatment

/-- The world after some treatments, one after another. -/
def World.after (w : World) (treatments : List (Tree × Treatment)) : World :=
  treatments.foldl (fun w step => step.2.apply step.1 w) w

namespace Tree

variable {nodes : Set Tree} {tree : Tree} {w : World}

theorem isCompiled_eq (tree : Tree) (w : World) :
    tree.isCompiled w = (w.slots[tree.cell]?.map Slot.isReady).getD false := by
  unfold isCompiled Slots.code?
  cases w.slots[tree.cell]? with
  | none => rfl
  | some slot => cases slot <;> rfl

end Tree

namespace World.Reachable

variable {nodes : Set Tree} {w : World}

/-- In every world that can be reached a node has code only if the operands that its code runs have
code. -/
theorem closed (h : w.Reachable nodes) : w.slots.Closed nodes := by
  induction h with
  | start => exact fun tree htree => absurd htree (Set.notMem_empty tree)
  | plant h formula ih =>
      rintro tree (htree | htree) code hcode
      · exact ih tree htree code hcode
      · cases (Slots.code?_eq_none (h.standing.fresh.slot_eq_none htree)).symm.trans hcode
  | @assemble nodes w h operator native operands hoperands ih =>
      rintro tree (rfl | htree) code hcode
      · have hempty := h.standing.fresh ⟨w.nextTree, []⟩ le_rfl
        cases (Slots.code?_eq_none hempty).symm.trans hcode
      · exact ih tree htree code hcode
  | keep _ cell value ih => exact ih
  | write _ event ih => exact ih
  | compile h htree limit ih =>
      rw [(Tree.compile_eq_tryCompile _ limit _).2]
      exact (Tree.lower_settles h.standing.forest htree ih limit).closed
  | tryCompile h htree limit ih =>
      exact (Tree.lower_settles h.standing.forest htree ih limit).closed
  | evaluate h htree host levels asValue ih =>
      refine ih.congr h.standing.forest fun node hnode => ?_
      exact (h.standing.evaluate_mirrors htree host levels asValue).slots_eq _
        (h.standing.planted node hnode)
  | tryEvaluate h htree host levels asValue ih =>
      refine ih.congr h.standing.forest fun node hnode => ?_
      exact (h.standing.tryEvaluate_mirrors htree host levels asValue).slots_eq _
        (h.standing.planted node hnode)

/-- What is done to existing nodes leads to another world that can be reached, and changes no slot
of theirs that is filled. -/
theorem treat (h : w.Reachable nodes) {tree : Tree} (htree : tree ∈ nodes) (t : Treatment) :
    (t.apply tree w).Reachable nodes ∧ ∀ node ∈ nodes, ∀ slot,
      w.slots[node.cell]? = some slot → (t.apply tree w).slots[node.cell]? = some slot := by
  cases t with
  | compile limit =>
      refine ⟨h.compile htree limit, fun node _ slot hslot => ?_⟩
      have hgrows := (Tree.lower_settles h.standing.forest htree h.closed limit).grows
      rw [Treatment.apply, (Tree.compile_eq_tryCompile tree limit w).2]
      exact hgrows node.cell slot hslot
  | tryCompile limit =>
      refine ⟨h.tryCompile htree limit, fun node _ slot hslot => ?_⟩
      exact (Tree.lower_settles h.standing.forest htree h.closed limit).grows node.cell slot hslot
  | evaluate host levels asValue =>
      refine ⟨h.evaluate htree host levels asValue, fun node hnode slot hslot => ?_⟩
      have hsame := (h.standing.evaluate_mirrors htree host levels asValue).slots_eq _
        (h.standing.planted node hnode)
      exact hsame.trans hslot
  | tryEvaluate host levels asValue =>
      refine ⟨h.tryEvaluate htree host levels asValue, fun node hnode slot hslot => ?_⟩
      have hsame := (h.standing.tryEvaluate_mirrors htree host levels asValue).slots_eq _
        (h.standing.planted node hnode)
      exact hsame.trans hslot

/-- The same for any number of treatments. -/
theorem after (h : w.Reachable nodes) {treatments : List (Tree × Treatment)}
    (htreatments : ∀ step ∈ treatments, step.1 ∈ nodes) :
    (w.after treatments).Reachable nodes ∧ ∀ node ∈ nodes, ∀ slot,
      w.slots[node.cell]? = some slot → (w.after treatments).slots[node.cell]? = some slot := by
  induction treatments generalizing w with
  | nil => exact ⟨h, fun _ _ _ hslot => hslot⟩
  | cons step rest ih =>
      obtain ⟨hstep, hrest⟩ := List.forall_mem_cons.mp htreatments
      obtain ⟨htreated, hkept⟩ := h.treat hstep step.2
      obtain ⟨hafter, hkept'⟩ := ih htreated hrest
      exact ⟨hafter, fun node hnode slot hslot =>
        hkept' node hnode slot (hkept node hnode slot hslot)⟩

/-- What lowering reports is what the slot holds afterwards. -/
theorem slot_of_report (h : w.Reachable nodes) {tree : Tree} (htree : tree ∈ nodes) {t : Treatment}
    {success : Bool} (hreport : t.report? tree w = some success) :
    (t.apply tree w).slots[tree.cell]?.map Slot.isReady = some success := by
  have hslot (limit : Nat) : (tree.tryCompile limit w).2.slots[tree.cell]?.map Slot.isReady =
      some (tree.tryCompile limit w).1.isOk := by
    have hsettles := (Tree.lower_settles h.standing.forest htree h.closed limit).slot_eq
    rw [← Slot.isReady_ofOutcome]
    exact congrArg (Option.map Slot.isReady) hsettles
  cases t with
  | compile limit =>
      obtain ⟨hsuccess, hslots⟩ := tree.compile_eq_tryCompile limit w
      rw [Treatment.report?, Option.some.injEq, hsuccess] at hreport
      rw [Treatment.apply, hslots, hslot, hreport]
  | tryCompile limit =>
      rw [Treatment.report?, Option.some.injEq] at hreport
      rw [Treatment.apply, hslot, hreport]
  | evaluate | tryEvaluate => cases hreport

/-- A slot is filled once. Lowering a node reports success exactly if the node has code afterwards,
and from then on always reports the same. A node that has code has the operands that its code runs
lowered, too. -/
theorem slots_settle (h : w.Reachable nodes) {node : Tree} (hnode : node ∈ nodes) :
    (∀ slot, w.slots[node.cell]? = some slot → ∀ treatments : List (Tree × Treatment),
      (∀ step ∈ treatments, step.1 ∈ nodes) →
        (w.after treatments).slots[node.cell]? = some slot) ∧
    (∀ t : Treatment, ∀ success, t.report? node w = some success →
      (success = true ↔ node.isCompiled (t.apply node w) = true) ∧
      ∀ treatments : List (Tree × Treatment), (∀ step ∈ treatments, step.1 ∈ nodes) →
        ∀ t' : Treatment, ∀ success',
          t'.report? node ((t.apply node w).after treatments) = some success' →
            success' = success) ∧
    (node.isCompiled w = true → ∀ i operand, node.formula.operands[i]? = some operand →
      node.formula.calls i = true → Tree.isCompiled ⟨operand, node.layout.below i⟩ w = true) := by
  refine ⟨fun slot hslot treatments htreatments => ?_, fun t success hreport => ⟨?_, ?_⟩, ?_⟩
  · exact (h.after htreatments).2 node hnode slot hslot
  · rw [node.isCompiled_eq, h.slot_of_report hnode hreport, Option.getD_some]
  · intro treatments htreatments t' success' hreport'
    have hslot := h.slot_of_report hnode hreport
    obtain ⟨slot, hfilled, hready⟩ := Option.map_eq_some_iff.mp hslot
    obtain ⟨htreated, -⟩ := h.treat hnode t
    obtain ⟨hafter, hkept⟩ := htreated.after htreatments
    have hlater := (hafter.treat hnode t').2 node hnode slot (hkept node hnode slot hfilled)
    have hslot' := hafter.slot_of_report hnode hreport'
    rw [hlater, Option.map_some, hready, Option.some.injEq] at hslot'
    exact hslot'.symm
  · intro hcompiled i operand hoperand hcalls
    obtain ⟨code, hcode⟩ := Option.isSome_iff_exists.mp hcompiled
    obtain ⟨hi, -⟩ := List.getElem?_eq_some_iff.mp hoperand
    obtain ⟨code, hcode⟩ := h.closed node hnode code hcode i hi hcalls
    exact Option.isSome_iff_exists.mpr ⟨code, hcode⟩

/-- A sum that was too deep for the first limit stays unlowered within any other. -/
theorem slots_settle_of_sum :
    let sum : Tree := ⟨.node .addition [.identifier "a", .identifier "b"], Layout.ofTree 0⟩
    let planted : World := { nextTree := 1 }
    let treatments := [(sum, Treatment.evaluate .empty 1 true)]
    planted.Reachable (∅ ∪ sum.nodes) ∧ sum ∈ ∅ ∪ sum.nodes ∧
      (Treatment.compile 1).report? sum planted = some false ∧
      ∀ limit, (sum.compile limit (((Treatment.compile 1).apply sum planted).after treatments)).1 =
        false := by
  intro sum planted treatments
  have hplanted : planted.Reachable (∅ ∪ sum.nodes) := World.Reachable.start.plant sum.formula
  have hsum : sum ∈ ∅ ∪ sum.nodes := Or.inr sum.self_mem_nodes
  have hreport : (Treatment.compile 1).report? sum planted = some false := by
    simp [Treatment.report?, Tree.compile, Tree.tryCompile, Tree.lower, sum, planted, Formula.depth,
      Formula.depthOfAll, Formula.node]
  obtain ⟨-, hsettled, -⟩ := hplanted.slots_settle hsum
  obtain ⟨-, hlater⟩ := hsettled _ false hreport
  refine ⟨hplanted, hsum, hreport, fun limit => ?_⟩
  exact hlater treatments (List.forall_mem_singleton.mpr hsum) (.compile limit) _ rfl

end World.Reachable

end Formulary
