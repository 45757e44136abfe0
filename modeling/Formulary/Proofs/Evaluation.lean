import Formulary.Proofs.Simulation

/-! # Evaluations on hosts

In sound slots the program of a tree is that of walking it, lowered or not. Hence two
trees of the same formula evaluate alike in mirroring worlds, at any depth of nesting:
a formula that host code evaluates is planted on fresh memory, whose slots are empty.
-/

namespace Formulary

namespace Tree

variable {nodes : Set Tree} {tree : Tree}

/-- Lowering a tree on its own keeps slots sound and fills none but its own. -/
theorem lower_sound (hforest : IsForest nodes) (htree : tree ∈ nodes) (limit : Nat)
    {slots : Slots} (hsound : slots.Sound nodes) :
    (tree.lower limit slots).2.Sound nodes ∧
      slots.SameOutside (tree.lower limit slots).2 tree.cells := by
  obtain ⟨hlater, hsame, -⟩ :=
    (tree.formula.lower_ensures hforest tree.layout htree).1 slots hsound
  unfold lower
  split
  · exact ⟨hlater, hsame⟩
  · simp only
    split
    · refine ⟨hsound.fill hforest htree (fun _ hready => by cases hready), ?_⟩
      refine (Slots.sameOutside_fill tree.cell .failed ∅).mono ?_
      rw [← tree.insert_cellsBelow]
      exact Set.insert_subset_insert (Set.empty_subset _)
    · exact ⟨hlater, hsame⟩

/-- What lowering a tree for evaluation changes: slots of its own cells, and the log. -/
theorem compile_eq (hforest : IsForest nodes) (htree : tree ∈ nodes) (limit : Nat) {w : World}
    (hsound : w.slots.Sound nodes) :
    ∃ slots log, (tree.compile limit w).2 = { w with slots := slots, log := log } ∧
      slots.Sound nodes ∧ w.slots.SameOutside slots tree.cells ∧
      ((tree.compile limit w).1 = true → ∃ code, slots.code? tree.cell = some code) := by
  obtain ⟨hlater, hsame⟩ := lower_sound hforest htree limit hsound
  have hfilled := (tree.formula.lower_ensures hforest tree.layout htree).2 w.slots hsound
  unfold compile
  cases hslot : w.slots[tree.cell]? with
  | some slot =>
      cases slot with
      | failed => exact ⟨w.slots, w.log, rfl, hsound, .refl _ _, fun hfalse => by cases hfalse⟩
      | ready code =>
          exact ⟨w.slots, w.log, rfl, hsound, .refl _ _,
            fun _ => ⟨code, Slots.code?_eq_some_iff.mpr hslot⟩⟩
  | none =>
      have hcode : ∀ code, (tree.lower limit w.slots).1 = .ok code →
          (tree.lower limit w.slots).2[tree.cell]? = some (.ready code) := by
        intro code
        unfold lower
        rw [hslot]
        simp only
        split
        · intro hok
          cases hok
        · exact hfilled code
      simp only [tryCompile]
      cases hrun : tree.lower limit w.slots with
      | mk outcome slots =>
          rw [hrun] at hlater hsame hcode
          cases outcome with
          | ok code =>
              exact ⟨slots, w.log, rfl, hlater, hsame,
                fun _ => ⟨code, Slots.code?_eq_some_iff.mpr (hcode code rfl)⟩⟩
          | error error => exact ⟨slots, _, rfl, hlater, hsame, fun hfalse => by cases hfalse⟩

/-- Lowering does not depend on results. -/
theorem compile_results (tree : Tree) (limit : Nat) (w : World)
    (results : Std.HashMap Cell Value) :
    tree.compile limit { w with results := results } =
      ((tree.compile limit w).1, { (tree.compile limit w).2 with results := results }) := by
  unfold compile tryCompile
  simp only
  split
  · rfl
  · rfl
  · cases hrun : tree.lower limit w.slots with
    | mk outcome slots => cases outcome <;> rfl

/-- What a tree does is walking it, whether it was lowered or not. -/
theorem program_eq_evaluate (htree : tree ∈ nodes) {slots : Slots} (hsound : slots.Sound nodes)
    (asValue : Bool) : tree.program slots asValue = tree.formula.evaluate tree.layout asValue := by
  unfold program
  cases hcode : slots.code? tree.cell with
  | none => rfl
  | some code => exact hsound tree htree code hcode asValue

end Tree

/-- The world in which the program of an evaluation starts. -/
def World.entered (w : World) : World :=
  { w with evaluations := w.evaluations + 1, evaluating := true }

/-- What the boundary hands out is how the program ended. -/
theorem Tree.calcChecked_result (m : Machine) (tree : Tree) (asValue : Bool) (w : World) :
    (tree.calcChecked m asValue w).1 =
      ((tree.program w.slots asValue).run m w.entered).1.trapped := by
  unfold calcChecked World.entered
  simp only
  split <;> simp_all

variable {ρ : Renaming} {slots : Slots} {m : Machine}

theorem World.Mirrors.noteFailure {w w' : World} (h : w.Mirrors ρ slots w') {formula : Formula}
    {layout layout' : Layout} (hmatches : formula.Matches ρ layout layout') (outermost : Bool)
    (error : EvalError) : (Tree.noteFailure ⟨formula, layout⟩ outermost error w).Mirrors ρ slots
      (Tree.noteFailure ⟨formula, layout'⟩ outermost error w') := by
  unfold Tree.noteFailure
  refine World.Mirrors.keep ?_ hmatches.root _
  refine World.Mirrors.write ?_ _
  rw [show w'.failures = w.failures by rw [h.same]]
  exact h.map (fun v => { v with failures := w.failures + 1 })
    (fun _ => rfl) (fun _ => rfl) (fun _ => rfl) (fun _ _ => rfl)

/-- Two trees of one formula, each doing what walking it does, evaluate alike. -/
theorem Tree.calcChecked_agree (hm : m.Respects ρ slots) {w w' : World}
    (h : w.Mirrors ρ slots w') {formula : Formula} {layout layout' : Layout}
    (hmatches : formula.Matches ρ layout layout') {asValue : Bool}
    (hprogram : Tree.program ⟨formula, layout⟩ w.slots asValue = formula.evaluate layout asValue)
    (hprogram' : Tree.program ⟨formula, layout'⟩ w'.slots asValue =
      formula.evaluate layout' asValue) :
    Agree ρ slots (Tree.calcChecked m ⟨formula, layout⟩ asValue w)
      (Tree.calcChecked m ⟨formula, layout'⟩ asValue w') := by
  have hstart : World.Mirrors ρ slots
      { w with evaluations := w.evaluations + 1, evaluating := true }
      { w' with evaluations := w'.evaluations + 1, evaluating := true } := by
    rw [show w'.evaluations = w.evaluations by rw [h.same]]
    exact h.map (fun v => { v with evaluations := w.evaluations + 1, evaluating := true })
      (fun _ => rfl) (fun _ => rfl) (fun _ => rfl) (fun _ _ => rfl)
  obtain ⟨houtcome, hafter⟩ :=
    Program.run_agree hm (formula.evaluate_similar hmatches asValue) hstart
  -- Both are outermost evaluations, or neither is.
  have hevaluating : w'.evaluating = w.evaluating := by rw [h.same]
  unfold calcChecked
  rw [hprogram, hprogram', hevaluating]
  cases hrun : (formula.evaluate layout asValue).run m
      { w with evaluations := w.evaluations + 1, evaluating := true } with
  | mk outcome after =>
      cases hrun' : (formula.evaluate layout' asValue).run m
          { w' with evaluations := w'.evaluations + 1, evaluating := true } with
      | mk outcome' after' =>
          rw [hrun, hrun'] at houtcome hafter
          obtain rfl : outcome = outcome' := houtcome
          have hended : World.Mirrors ρ slots
              (if (!w.evaluating) = true then { after with evaluating := false } else after)
              (if (!w.evaluating) = true then { after' with evaluating := false } else after') := by
            split
            · exact hafter.map (fun v => { v with evaluating := false })
                (fun _ => rfl) (fun _ => rfl) (fun _ => rfl) (fun _ _ => rfl)
            · exact hafter
          simp only
          cases outcome.trapped with
          | ok value => exact ⟨rfl, hended⟩
          | error error => exact ⟨rfl, hended.noteFailure hmatches _ error⟩

/-- Lowering a tree that is younger than the base changes both worlds alike. -/
theorem World.Mirrors.compile {nodes : Set Tree} {tree : Tree} (hforest : IsForest nodes)
    (htree : tree ∈ nodes) {w w' : World} (h : w.Mirrors ρ slots w')
    (hsound : w.slots.Sound nodes)
    (hcells : ∀ cell ∈ tree.cells, ρ.base ≤ cell.tree ∧ cell.tree < w.nextTree) (limit : Nat) :
    (tree.compile limit w).2.Mirrors ρ slots (tree.compile limit w').2 := by
  obtain ⟨lowered, log, heq, -, hsame, -⟩ := Tree.compile_eq hforest htree limit hsound
  have hsecond : (tree.compile limit w').2 =
      { (tree.compile limit w).2 with results := w'.results } := by
    conv_lhs => rw [h.same]
    rw [tree.compile_results]
  rw [hsecond, heq]
  constructor
  · rfl
  · intro cell cell' hcell
    exact h.result_eq hcell
  · exact h.base_le
  · intro cell hcell
    have hold : lowered[cell]? = w.slots[cell]? :=
      hsame cell fun hmem => absurd (hcells cell hmem).2 (Nat.not_lt.mpr hcell)
    exact hold.trans (h.fresh cell hcell)
  · intro cell hcell
    have hold : lowered[cell]? = w.slots[cell]? :=
      hsame cell fun hmem => absurd (hcells cell hmem).1 (Nat.not_le.mpr hcell)
    exact hold.trans (h.slots_eq cell hcell)

theorem World.Mirrors.plant {w w' : World} (h : w.Mirrors ρ slots w') :
    World.Mirrors ρ slots { w with nextTree := w.nextTree + 1 }
      { w' with nextTree := w'.nextTree + 1 } where
  same := by rw [h.same]
  result_eq := h.result_eq
  base_le := h.base_le.trans (Nat.le_succ _)
  fresh := fun cell hcell => h.fresh cell (Nat.le_of_succ_le hcell)
  slots_eq := h.slots_eq

namespace World

/-- The slots of a tree that was planted just now are empty. -/
theorem Fresh.slot_eq_none {w : World} (hfresh : w.Fresh) {formula : Formula} {node : Tree}
    (hnode : node ∈ Tree.nodes ⟨formula, Layout.ofTree w.nextTree⟩) :
    w.slots[node.cell]? = none := by
  obtain ⟨path, -, hlayout⟩ := Tree.mem_nodes_iff.mp hnode
  refine hfresh _ ?_
  simp [Tree.cell, Layout.root, hlayout, Layout.ofTree]

theorem Fresh.sound {w : World} (hfresh : w.Fresh) (formula : Formula) :
    w.slots.Sound (Tree.nodes ⟨formula, Layout.ofTree w.nextTree⟩) := by
  intro node hnode code hcode
  rw [Slots.code?_eq_none (hfresh.slot_eq_none hnode)] at hcode
  cases hcode

end World

theorem Tree.tree_of_mem_cells {formula : Formula} {serial : Nat} {cell : Cell}
    (hcell : cell ∈ Tree.cells ⟨formula, Layout.ofTree serial⟩) : cell.tree = serial := by
  obtain ⟨path, -, rfl⟩ := hcell
  rfl

namespace Machine

/-- A formula that host code evaluates has memory of its own and sees no other results. -/
theorem evaluate_agree (host : Host) {levels : Nat}
    (hm : (ofHost host levels).Respects ρ slots) {w w' : World} (h : w.Mirrors ρ slots w')
    (formula : Formula) (compiled asValue : Bool) :
    Agree ρ slots ((ofHost host (levels + 1)).evaluate formula compiled asValue w)
      ((ofHost host (levels + 1)).evaluate formula compiled asValue w') := by
  let tree : Tree := ⟨formula, Layout.ofTree w.nextTree⟩
  have hforest : IsForest tree.nodes := .ofTree formula w.nextTree
  have hself : tree ∈ tree.nodes := tree.self_mem_nodes
  have hplanted := h.plant
  have hsound : w.slots.Sound tree.nodes := h.fresh.sound formula
  -- The world in which the tree is evaluated, lowered or not.
  let ready (v : World) : World := if compiled then (tree.compile defaultDepthLimit v).2 else v
  have hready : World.Mirrors ρ slots (ready { w with nextTree := w.nextTree + 1 })
      (ready { w' with nextTree := w'.nextTree + 1 }) ∧
      (ready { w with nextTree := w.nextTree + 1 }).slots.Sound tree.nodes := by
    cases compiled with
    | false => exact ⟨hplanted, hsound⟩
    | true =>
        refine ⟨hplanted.compile hforest hself hsound ?_ defaultDepthLimit, ?_⟩
        · intro cell hcell
          rw [Tree.tree_of_mem_cells hcell]
          exact ⟨h.base_le, Nat.lt_succ_self _⟩
        · obtain ⟨lowered, log, heq, hlowered, -⟩ := Tree.compile_eq hforest hself
            defaultDepthLimit (w := { w with nextTree := w.nextTree + 1 }) hsound
          change (tree.compile _ _).2.slots.Sound _
          rw [heq]
          exact hlowered
  obtain ⟨hmirrors, hlowered⟩ := hready
  have hprogram := Tree.program_eq_evaluate hself hlowered asValue
  obtain ⟨hresult, hafter⟩ := Tree.calcChecked_agree hm hmirrors
    (.ofTree h.base_le : formula.Matches ρ (Layout.ofTree w.nextTree) _) hprogram
    (by rw [hmirrors.slots_same]; exact hprogram)
  have hsame : Layout.ofTree w'.nextTree = Layout.ofTree w.nextTree := by rw [h.nextTree_eq]
  simp only [ofHost, World.plant, hsame]
  exact ⟨congrArg some hresult, hafter⟩

/-- A host does not see the difference between mirroring worlds, however deep it nests. -/
theorem ofHost_respects (host : Host) (levels : Nat) :
    (ofHost host levels).Respects ρ slots := by
  induction levels with
  | zero =>
      constructor
      · intro w w' h request
        exact ⟨rfl, h⟩
      · intro w w' h
        exact ⟨rfl, h⟩
      · intro w w' h formula compiled asValue
        exact ⟨rfl, h⟩
  | succ levels ih =>
      constructor
      · intro w w' h request
        simp only [ofHost, h.calls_eq]
        exact (host.respond w.calls request).run_agree ih (h.noteCall _)
      · intro w w' h
        simp only [ofHost, h.calls_eq]
        exact (host.describe w.calls).run_agree ih (h.noteCall _)
      · intro w w' h formula compiled asValue
        exact evaluate_agree host ih h formula compiled asValue

end Machine

end Formulary
