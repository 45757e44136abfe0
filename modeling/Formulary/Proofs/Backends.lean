import Formulary.OperatorTable
import Formulary.Proofs.Session

/-! # Running code and walking are the same to an observer

A tree that was lowered and a copy of it that was not give the same result or the same
failure, ask the host the same in the same order, write the same lines and leave the
same last result in every node.
-/

namespace Formulary

/-- Another tree of the same formula, with the same nodes shared and the same last
results. -/
structure Tree.Copies (copy tree : Tree) (w : World) : Prop where
  formula_eq : copy.formula = tree.formula
  shares_iff : ∀ p q, (tree.formula.descendant? p).isSome → (tree.formula.descendant? q).isSome →
    (tree.layout p = tree.layout q ↔ copy.layout p = copy.layout q)
  result_eq : ∀ p, (tree.formula.descendant? p).isSome →
    w.result (tree.layout p) = w.result (copy.layout p)

namespace Tree.Copies

variable {copy tree : Tree} {w : World}

/-- Every node of the tree matches the node of its copy; trees planted later match
themselves. -/
def correspondence (h : copy.Copies tree w) (base : Nat)
    (htree : ∀ cell ∈ tree.cells, cell.tree < base)
    (hcopy : ∀ cell ∈ copy.cells, cell.tree < base) : Renaming where
  rel cell cell' := (base ≤ cell.tree ∧ cell = cell') ∨
    ∃ path, (tree.formula.descendant? path).isSome ∧
      cell = tree.layout path ∧ cell' = copy.layout path
  base := base
  eq_iff := by
    have hbelow : ∀ path, (tree.formula.descendant? path).isSome →
        (tree.layout path).tree < base ∧ (copy.layout path).tree < base := by
      intro path hpath
      exact ⟨htree _ ⟨path, hpath, rfl⟩, hcopy _ ⟨path, by rwa [h.formula_eq], rfl⟩⟩
    rintro c c' d d' (⟨hc, rfl⟩ | ⟨p, hp, rfl, rfl⟩) (⟨hd, rfl⟩ | ⟨q, hq, rfl, rfl⟩)
    · exact Iff.rfl
    · obtain ⟨hleft, hright⟩ := hbelow q hq
      constructor
      · rintro rfl
        omega
      · rintro rfl
        omega
    · obtain ⟨hleft, hright⟩ := hbelow p hp
      constructor
      · rintro rfl
        omega
      · rintro rfl
        omega
    · exact h.shares_iff p q hp hq
  rel_self hcell := Or.inl ⟨hcell, rfl⟩

end Tree.Copies

/-- A lowered tree runs its code, and whoever observes the evaluation cannot tell it
from that of a copy that is walked. -/
theorem compiled_calcChecked_eq_walked {nodes : Set Tree} {w : World} (hw : w.Reachable nodes)
    {tree copy : Tree} (htree : tree ∈ nodes) (hcopy : copy ∈ nodes) (hcopies : copy.Copies tree w)
    {limit : Nat} {lowered : World} (hlowered : tree.compile limit w = (true, lowered))
    (hwalked : copy.isCompiled lowered = false) (host : Host) (levels : Nat) (asValue : Bool) :
    let run := tree.calcChecked (.ofHost host levels) asValue lowered
    let walk := copy.calcChecked (.ofHost host levels) asValue lowered
    (∃ code : Code, tree.program lowered.slots asValue = .recorded tree.cell (code.run asValue)) ∧
      copy.program lowered.slots asValue = copy.formula.evaluate copy.layout asValue ∧
      run.1 = walk.1 ∧ run.2.calls = walk.2.calls ∧ run.2.log = walk.2.log ∧
      (∀ path, (tree.formula.descendant? path).isSome →
        run.2.result (tree.layout path) = walk.2.result (copy.layout path)) ∧
      ∀ indent newline, tree.trace indent newline run.2 = copy.trace indent newline walk.2 := by
  intro run walk
  obtain ⟨slots, log, heq, hsound, hsame, hcode⟩ :=
    Tree.compile_eq hw.standing.forest htree limit hw.standing.sound
  rw [hlowered] at heq hcode
  obtain rfl : lowered = { w with slots := slots, log := log } := heq
  have hstanding : World.Standing nodes { w with slots := slots, log := log } := by
    have hafter := hw.standing.compile htree limit
    rwa [hlowered] at hafter
  obtain ⟨code, hcode⟩ := hcode rfl
  have hran : tree.program slots asValue = .recorded tree.cell (code.run asValue) := by
    simp only [Tree.program, hcode]
  have hstayed : copy.program slots asValue = copy.formula.evaluate copy.layout asValue := by
    have hnone : slots.code? copy.cell = none := by
      simpa [Tree.isCompiled] using hwalked
    simp only [Tree.program, hnone]
  -- From here on it does not matter which of the two was lowered: both walk, on cells that match.
  let ρ := hcopies.correspondence w.nextTree (fun _ => hw.standing.cells_planted htree)
    (fun _ => hw.standing.cells_planted hcopy)
  have hmirrors : World.Mirrors ρ slots { w with slots := slots, log := log }
      { w with slots := slots, log := log } := by
    constructor
    · rfl
    · rintro cell cell' (⟨-, rfl⟩ | ⟨path, hpath, rfl, rfl⟩)
      · rfl
      · exact hcopies.result_eq path hpath
    · exact le_rfl
    · exact hstanding.fresh
    · exact fun _ _ => rfl
  have hmatches : tree.formula.Matches ρ tree.layout copy.layout :=
    fun path hpath => Or.inr ⟨path, hpath, rfl, rfl⟩
  have hsame : copy = ⟨tree.formula, copy.layout⟩ := by rw [← hcopies.formula_eq]
  have hrespects : (Machine.ofHost host levels).Respects ρ slots :=
    Machine.ofHost_respects host levels
  obtain ⟨hresult, hafter⟩ := Tree.calcChecked_agree hrespects hmirrors hmatches
    (Tree.program_eq_evaluate htree hstanding.sound asValue)
    (by rw [← hsame, hstayed, hcopies.formula_eq])
  rw [← hsame] at hresult hafter
  refine ⟨⟨code, hran⟩, hstayed, hresult, hafter.calls_eq.symm, hafter.log_eq.symm, ?_, ?_⟩
  · exact fun path hpath => hafter.result_eq (hmatches path hpath)
  · intro indent newline
    have hlines := hafter.traceLines_eq hmatches indent
    rw [← hsame] at hlines
    exact congrArg (fun lines => String.join (lines.map (· ++ newline))) hlines

/-- Two copies of `@(a && b)`, of which the first is lowered. -/
theorem conjunction_calcChecked_eq_walked :
    let formula : Formula := .node .log [.node .conjunction [.identifier "a", .identifier "b"]]
    let tree : Tree := ⟨formula, Layout.ofTree 0⟩
    let copy : Tree := ⟨formula, Layout.ofTree 1⟩
    let lowered := (tree.compile 3 { nextTree := 2 }).2
    (tree.compile 3 { nextTree := 2 }).1 = true ∧ copy.isCompiled lowered = false ∧
      (tree.calcOn .empty true lowered).1 = (copy.calcOn .empty true lowered).1 ∧
      (tree.calcOn .empty true lowered).2.log = (copy.calcOn .empty true lowered).2.log := by
  intro formula tree copy lowered
  have hreachable : World.Reachable (∅ ∪ tree.nodes ∪ copy.nodes) { nextTree := 2 } :=
    (World.Reachable.start.plant formula).plant formula
  have htree : tree ∈ ∅ ∪ tree.nodes ∪ copy.nodes := Or.inl (Or.inr tree.self_mem_nodes)
  have hcopy : copy ∈ ∅ ∪ tree.nodes ∪ copy.nodes := Or.inr copy.self_mem_nodes
  have hcopies : copy.Copies tree { nextTree := 2 } := by
    constructor
    · rfl
    · intro p q _ _
      simp [tree, copy, Layout.ofTree]
    · intro p _
      simp [World.result]
  have hready : (tree.compile 3 { nextTree := 2 }).1 = true := by
    simp [Tree.compile, Tree.tryCompile, Tree.lower, tree, formula, Formula.depth,
      Formula.depthOfAll, Formula.node, Formula.lower, Operator.log, Operator.conjunction,
      Lowering.once, Lowering.kept, bind, Lowering.bind, Slots.fill, Tree.cell, Layout.root,
      Layout.ofTree, Layout.below, pure, Lowering.pure]
  have hwalked : copy.isCompiled lowered = false := by
    obtain ⟨slots, log, heq, -, hsame, -⟩ := Tree.compile_eq hreachable.standing.forest htree 3
      hreachable.standing.sound
    have hempty : slots[copy.cell]? = none := by
      refine (hsame _ fun hmem => ?_).trans Std.HashMap.getElem?_empty
      exact absurd (Tree.tree_of_mem_cells hmem) (by decide)
    simp only [Tree.isCompiled, lowered, heq, Slots.code?_eq_none hempty, Option.isSome_none]
  obtain ⟨-, -, hresult, -, hlog, -⟩ := compiled_calcChecked_eq_walked hreachable htree hcopy
    hcopies (Prod.ext hready rfl) hwalked .empty nestingLevels true
  exact ⟨hready, hwalked, hresult, hlog⟩

end Formulary
