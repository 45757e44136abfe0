import Formulary.Proofs.Evaluation

/-! # Sessions

What a program can do with trees: read them, put them together by hand, lower them and
evaluate them, on any hosts and in any order. In every world that can be reached this
way the slots of all nodes are sound, so nothing that was done to a tree before decides
what evaluating it does. Results are not constrained at all.
-/

namespace Formulary

/-- A new node above existing ones, which stay the objects they are. -/
def Tree.assemble (serial : Nat) (operator : Operator) (native : Option (Native Formula))
    (operands : List Tree) : Tree where
  formula := .apply operator native (operands.map Tree.formula)
  layout
    | [] => ⟨serial, []⟩
    | i :: path =>
      match operands[i]? with
      | some operand => operand.layout path
      | none => ⟨serial, i :: path⟩

/-- The worlds that can be reached, with the nodes that exist there. -/
inductive World.Reachable : Set Tree → World → Prop where
  | start : Reachable ∅ {}
  | plant {nodes w} (h : Reachable nodes w) (formula : Formula) :
      Reachable (nodes ∪ (w.plant formula).1.nodes) (w.plant formula).2
  | assemble {nodes w} (h : Reachable nodes w) (operator : Operator)
      (native : Option (Native Formula)) {operands : List Tree}
      (hoperands : ∀ operand ∈ operands, operand ∈ nodes) :
      Reachable (insert (.assemble w.nextTree operator native operands) nodes)
        { w with nextTree := w.nextTree + 1 }
  /-- Any result may stand in any cell. -/
  | keep {nodes w} (h : Reachable nodes w) (cell : Cell) (value : Value) :
      Reachable nodes (w.keep cell value)
  | write {nodes w} (h : Reachable nodes w) (event : LogEvent) : Reachable nodes (w.write event)
  | compile {nodes w} (h : Reachable nodes w) {tree : Tree} (htree : tree ∈ nodes) (limit : Nat) :
      Reachable nodes (tree.compile limit w).2
  | tryCompile {nodes w} (h : Reachable nodes w) {tree : Tree} (htree : tree ∈ nodes)
      (limit : Nat) : Reachable nodes (tree.tryCompile limit w).2
  | evaluate {nodes w} (h : Reachable nodes w) {tree : Tree} (htree : tree ∈ nodes) (host : Host)
      (levels : Nat) (asValue : Bool) :
      Reachable nodes (tree.calcChecked (.ofHost host levels) asValue w).2
  | tryEvaluate {nodes w} (h : Reachable nodes w) {tree : Tree} (htree : tree ∈ nodes) (host : Host)
      (levels : Nat) (asValue : Bool) :
      Reachable nodes ((tree.program w.slots asValue).run (.ofHost host levels) w).2

/-- What holds of every world that can be reached. -/
structure World.Standing (nodes : Set Tree) (w : World) : Prop where
  forest : IsForest nodes
  planted : ∀ tree ∈ nodes, tree.cell.tree < w.nextTree
  sound : w.slots.Sound nodes
  fresh : w.Fresh

namespace Tree

theorem exists_node_of_mem_cells {tree : Tree} {cell : Cell} (hcell : cell ∈ tree.cells) :
    ∃ node ∈ tree.nodes, node.cell = cell := by
  obtain ⟨path, hpath, hcell⟩ := hcell
  obtain ⟨formula, hformula⟩ := Option.isSome_iff_exists.mp hpath
  refine ⟨⟨formula, fun inner => tree.layout (path ++ inner)⟩,
    mem_nodes_iff.mpr ⟨path, hformula, rfl⟩, ?_⟩
  simp only [Tree.cell, Layout.root, List.append_nil, hcell]

theorem assemble_operand {serial : Nat} {operator : Operator} {native : Option (Native Formula)}
    {operands : List Tree} {i : Nat} {operand : Formula}
    (hoperand : (assemble serial operator native operands).formula.operands[i]? = some operand) :
    (⟨operand, (assemble serial operator native operands).layout.below i⟩ : Tree) ∈ operands := by
  have hmap : (operands.map Tree.formula)[i]? = some operand := hoperand
  rw [List.getElem?_map, Option.map_eq_some_iff] at hmap
  obtain ⟨tree, htree, rfl⟩ := hmap
  have hlayout : (assemble serial operator native operands).layout.below i = tree.layout := by
    funext path
    simp only [Layout.below, assemble, htree]
  rw [hlayout]
  exact List.mem_of_getElem? htree

end Tree

namespace World.Standing

variable {nodes : Set Tree} {w : World}

theorem cells_planted (h : w.Standing nodes) {tree : Tree} (htree : tree ∈ nodes) {cell : Cell}
    (hcell : cell ∈ tree.cells) : cell.tree < w.nextTree := by
  obtain ⟨node, hnode, rfl⟩ := Tree.exists_node_of_mem_cells hcell
  exact h.planted node (h.forest.descendant_mem htree hnode)

/-- Results, the log and counters do not matter. -/
theorem congr (h : w.Standing nodes) {v : World} (hslots : v.slots = w.slots)
    (htree : v.nextTree = w.nextTree) : v.Standing nodes where
  forest := h.forest
  planted := by rw [htree]; exact h.planted
  sound := by rw [hslots]; exact h.sound
  fresh := h.fresh.congr hslots htree

/-- Slots of existing cells may change to sound ones. -/
theorem withSlots (h : w.Standing nodes) {slots : Slots} (hsound : slots.Sound nodes)
    {cells : Set Cell} (hsame : w.slots.SameOutside slots cells)
    (hcells : ∀ cell ∈ cells, cell.tree < w.nextTree) :
    World.Standing nodes { w with slots := slots } where
  forest := h.forest
  planted := h.planted
  sound := hsound
  fresh := by
    intro cell hcell
    have hold : slots[cell]? = w.slots[cell]? :=
      hsame cell fun hmem => absurd (hcells cell hmem) (Nat.not_lt.mpr hcell)
    exact hold.trans (h.fresh cell hcell)

/-- Of no nodes at all there is nothing to say. -/
theorem of_fresh (hfresh : w.Fresh) : w.Standing ∅ where
  forest := ⟨fun htree => absurd htree (Set.notMem_empty _),
    fun hfirst => absurd hfirst (Set.notMem_empty _)⟩
  planted := fun _ htree => absurd htree (Set.notMem_empty _)
  sound := fun _ htree => absurd htree (Set.notMem_empty _)
  fresh := hfresh

theorem plant (h : w.Standing nodes) (formula : Formula) :
    (w.plant formula).2.Standing (nodes ∪ (w.plant formula).1.nodes) where
  forest := by
    refine h.forest.union (.ofTree formula w.nextTree) ?_
    intro first hfirst second hsecond hcell
    have hold := h.planted first hfirst
    obtain ⟨path, -, hlayout⟩ := Tree.mem_nodes_iff.mp hsecond
    rw [hcell, Tree.cell, Layout.root, hlayout] at hold
    exact absurd hold (lt_irrefl _)
  planted := by
    rintro tree (htree | htree)
    · exact Nat.lt_succ_of_lt (h.planted tree htree)
    · obtain ⟨path, -, hlayout⟩ := Tree.mem_nodes_iff.mp htree
      rw [Tree.cell, Layout.root, hlayout]
      exact Nat.lt_succ_self _
  sound := by
    rintro tree (htree | htree)
    · exact h.sound tree htree
    · exact h.fresh.sound formula tree htree
  fresh := fun cell hcell => h.fresh cell (Nat.le_of_succ_le hcell)

theorem assemble (h : w.Standing nodes) (operator : Operator) (native : Option (Native Formula))
    {operands : List Tree} (hoperands : ∀ operand ∈ operands, operand ∈ nodes) :
    World.Standing (insert (.assemble w.nextTree operator native operands) nodes)
      { w with nextTree := w.nextTree + 1 } where
  forest := by
    -- No node has the cell of the new one, whose serial was not taken before.
    refine h.forest.insert (fun hoperand => hoperands _ (Tree.assemble_operand hoperand)) ?_
    intro node hnode hcell
    have hold := h.planted node hnode
    rw [hcell] at hold
    exact absurd hold (lt_irrefl _)
  planted := by
    rintro tree (rfl | htree)
    · exact Nat.lt_succ_self _
    · exact Nat.lt_succ_of_lt (h.planted tree htree)
  sound := by
    rintro tree (rfl | htree) code hcode
    · have hempty : w.slots[(Tree.assemble w.nextTree operator native operands).cell]? = none :=
        h.fresh _ le_rfl
      rw [Slots.code?_eq_none hempty] at hcode
      cases hcode
    · exact h.sound tree htree code hcode
  fresh := fun cell hcell => h.fresh cell (Nat.le_of_succ_le hcell)

theorem compile (h : w.Standing nodes) {tree : Tree} (htree : tree ∈ nodes) (limit : Nat) :
    (tree.compile limit w).2.Standing nodes := by
  obtain ⟨slots, log, heq, hsound, hsame, -⟩ := Tree.compile_eq h.forest htree limit h.sound
  rw [heq]
  exact (h.withSlots hsound hsame fun cell => h.cells_planted htree).congr rfl rfl

theorem tryCompile (h : w.Standing nodes) {tree : Tree} (htree : tree ∈ nodes) (limit : Nat) :
    (tree.tryCompile limit w).2.Standing nodes := by
  obtain ⟨hsound, hsame⟩ := Tree.lower_sound h.forest htree limit h.sound
  exact h.withSlots hsound hsame fun cell => h.cells_planted htree

/-- A world mirrors itself up to what is planted later. -/
theorem mirrors (h : w.Standing nodes) : w.Mirrors (.identity w.nextTree) w.slots w where
  same := rfl
  result_eq := by
    rintro cell _ rfl
    rfl
  base_le := le_rfl
  fresh := h.fresh
  slots_eq _ _ := rfl

/-- Running host code only fills slots of trees that are planted on the way. -/
theorem of_mirrors (h : w.Standing nodes) {v v' : World}
    (hmirrors : v.Mirrors (.identity w.nextTree) w.slots v') : v.Standing nodes where
  forest := h.forest
  planted := fun tree htree => (h.planted tree htree).trans_le hmirrors.base_le
  sound := by
    intro tree htree code hcode
    rw [Slots.code?_eq_some_iff, hmirrors.slots_eq _ (h.planted tree htree)] at hcode
    exact h.sound tree htree code (Slots.code?_eq_some_iff.mpr hcode)
  fresh := hmirrors.fresh

theorem matches_self (formula : Formula) (base : Nat) (layout : Layout) :
    formula.Matches (.identity base) layout layout := fun _ _ => rfl

/-- An evaluation leaves a world that mirrors itself up to what was planted on the way. -/
theorem evaluate_mirrors (h : w.Standing nodes) {tree : Tree} (htree : tree ∈ nodes) (host : Host)
    (levels : Nat) (asValue : Bool) :
    let ended := (tree.calcChecked (.ofHost host levels) asValue w).2
    ended.Mirrors (.identity w.nextTree) w.slots ended := by
  have hprogram := Tree.program_eq_evaluate htree h.sound asValue
  exact (Tree.calcChecked_agree (Machine.ofHost_respects host levels) h.mirrors
    (matches_self _ _ _) hprogram hprogram).2

theorem tryEvaluate_mirrors (h : w.Standing nodes) {tree : Tree} (htree : tree ∈ nodes)
    (host : Host) (levels : Nat) (asValue : Bool) :
    let ended := ((tree.program w.slots asValue).run (.ofHost host levels) w).2
    ended.Mirrors (.identity w.nextTree) w.slots ended := by
  rw [Tree.program_eq_evaluate htree h.sound asValue]
  exact (Program.run_agree (Machine.ofHost_respects host levels)
    (tree.formula.evaluate_similar (matches_self _ _ _) asValue) h.mirrors).2

theorem evaluate (h : w.Standing nodes) {tree : Tree} (htree : tree ∈ nodes) (host : Host)
    (levels : Nat) (asValue : Bool) :
    (tree.calcChecked (.ofHost host levels) asValue w).2.Standing nodes :=
  h.of_mirrors (h.evaluate_mirrors htree host levels asValue)

theorem tryEvaluate (h : w.Standing nodes) {tree : Tree} (htree : tree ∈ nodes) (host : Host)
    (levels : Nat) (asValue : Bool) :
    ((tree.program w.slots asValue).run (.ofHost host levels) w).2.Standing nodes :=
  h.of_mirrors (h.tryEvaluate_mirrors htree host levels asValue)

end World.Standing

/-- Sound slots in every reachable world. -/
theorem World.Reachable.standing {nodes : Set Tree} {w : World} (h : w.Reachable nodes) :
    w.Standing nodes := by
  induction h with
  | start => exact .of_fresh fun _ _ => Std.HashMap.getElem?_empty
  | plant _ formula ih => exact ih.plant formula
  | assemble _ operator native hoperands ih => exact ih.assemble operator native hoperands
  | keep _ cell value ih => exact ih.congr rfl rfl
  | write _ event ih => exact ih.congr rfl rfl
  | compile _ htree limit ih => exact ih.compile htree limit
  | tryCompile _ htree limit ih => exact ih.tryCompile htree limit
  | evaluate _ htree host levels asValue ih => exact ih.evaluate htree host levels asValue
  | tryEvaluate _ htree host levels asValue ih => exact ih.tryEvaluate htree host levels asValue

/-- A formula that is planted before anything else. -/
theorem World.Reachable.first (formula : Formula) :
    (World.plant {} formula).2.Reachable (∅ ∪ (World.plant {} formula).1.nodes) ∧
      (World.plant {} formula).1 ∈ ∅ ∪ (World.plant {} formula).1.nodes :=
  ⟨.plant .start formula, Or.inr (Tree.self_mem_nodes _)⟩

end Formulary
