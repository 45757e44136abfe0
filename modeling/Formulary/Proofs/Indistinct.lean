import Formulary.Proofs.Session

/-! # Worlds that a host cannot tell apart

What a host does depends on the calls that it has received and on the serials that it is
given. Two worlds that agree on both may differ in everything else: the trees that were
planted, what these were lowered to, their last results, the log and the counters. A
formula that is planted in each of them evaluates alike.
-/

namespace Formulary

namespace Renaming

/-- The nodes of one planted tree match those at the same places of another. -/
def transplant (serial serial' : Nat) : Renaming where
  rel cell cell' := (cell.tree = serial ∧ cell' = ⟨serial', cell.path⟩) ∨
    (max serial serial' < cell.tree ∧ cell = cell')
  base := max serial serial' + 1
  eq_iff := by
    rintro ⟨tree, path⟩ c' ⟨tree', path'⟩ d' hc hd
    simp only at hc hd
    rcases hc with ⟨rfl, rfl⟩ | ⟨hc, rfl⟩ <;> rcases hd with ⟨rfl, rfl⟩ | ⟨hd, rfl⟩
    · simp
    · simp only [Cell.mk.injEq]
      omega
    · simp only [Cell.mk.injEq]
      omega
    · exact Iff.rfl
  rel_self hcell := .inr ⟨hcell, rfl⟩

end Renaming

theorem Formula.matches_transplant (formula : Formula) (serial serial' : Nat) :
    formula.Matches (.transplant serial serial') (Layout.ofTree serial) (Layout.ofTree serial') :=
  fun _ _ => .inl ⟨rfl, rfl⟩

/-- The same calls so far and the same serials from now on. -/
structure World.Alike (w w' : World) : Prop where
  calls_eq : w'.calls = w.calls
  nextSerial_eq : w'.nextSerial = w.nextSerial

/-- A relation of worlds in which formulas can be planted, and which no change breaks that hosts do
not see. -/
structure World.Outward (R : World → World → Prop) : Prop where
  nextSerial_eq : ∀ {w w'}, R w w' → w'.nextSerial = w.nextSerial
  takeSerial : ∀ {w w'}, R w w' →
    R { w with nextSerial := w.nextSerial + 1 } { w' with nextSerial := w'.nextSerial + 1 }
  fresh : ∀ {w w'}, R w w' → w.Fresh
  fresh' : ∀ {w w'}, R w w' → w'.Fresh
  congr : ∀ {w w' v v'}, R w w' → w.Alike v → v.Fresh → w'.Alike v' → v'.Fresh → R v v'

/-- Worlds that remain alike whatever a host does in both. -/
structure World.Indistinct (w w' : World) : Prop extends w.Alike w' where
  fresh : w.Fresh
  fresh' : w'.Fresh

namespace World

namespace Alike

variable {w w' v : World}

theorem refl (w : World) : w.Alike w := ⟨rfl, rfl⟩

theorem symm (h : w.Alike w') : w'.Alike w := ⟨h.calls_eq.symm, h.nextSerial_eq.symm⟩

theorem trans (h : w.Alike w') (h' : w'.Alike v) : w.Alike v :=
  ⟨h'.calls_eq.trans h.calls_eq, h'.nextSerial_eq.trans h.nextSerial_eq⟩

end Alike

/-- Notes that a world takes are no business of a host. -/
theorem Outward.notes {R : World → World → Prop} (hR : Outward R) {w w' v v' : World} (h : R w w')
    (hv : w.Alike v) (hslots : v.slots = w.slots) (htree : v.nextTree = w.nextTree)
    (hv' : w'.Alike v') (hslots' : v'.slots = w'.slots) (htree' : v'.nextTree = w'.nextTree) :
    R v v' :=
  hR.congr h hv ((hR.fresh h).congr hslots htree) hv' ((hR.fresh' h).congr hslots' htree')

namespace Indistinct

variable {w w' : World}

theorem outward : Outward Indistinct where
  nextSerial_eq h := h.nextSerial_eq
  takeSerial h := ⟨⟨h.calls_eq, congrArg (· + 1) h.nextSerial_eq⟩, h.fresh, h.fresh'⟩
  fresh h := h.fresh
  fresh' h := h.fresh'
  congr h hv hfresh hv' hfresh' := ⟨hv.symm.trans (h.toAlike.trans hv'), hfresh, hfresh'⟩

theorem noteCall (h : w.Indistinct w') (call : Call) :
    (w.noteCall call).Indistinct (w'.noteCall call) :=
  ⟨⟨congrArg (· ++ [call]) h.calls_eq, h.nextSerial_eq⟩, h.fresh, h.fresh'⟩

end Indistinct

end World

variable {ρ : Renaming} {R : World → World → Prop} {m : Machine} {w w' : World}

namespace Tree

/-- Lowering is no business of the host. -/
theorem compile_alike (tree : Tree) (limit : Nat) (w : World) :
    w.Alike (tree.compile limit w).2 := by
  unfold compile tryCompile
  split
  · exact ⟨rfl, rfl⟩
  · exact ⟨rfl, rfl⟩
  · simp only
    cases hrun : tree.lower limit w.slots with
    | mk outcome slots => cases outcome <;> exact ⟨rfl, rfl⟩

/-- After the program of an evaluation the boundary only takes notes. -/
theorem calcChecked_alike (m : Machine) (tree : Tree) (asValue : Bool) (w : World) :
    let ended := ((tree.program w.slots asValue).run m w.entered).2
    let after := (tree.calcChecked m asValue w).2
    ended.Alike after ∧ after.slots = ended.slots ∧ after.nextTree = ended.nextTree := by
  intro ended after
  simp only [after, ended]
  unfold calcChecked World.entered
  simp only
  split <;> split <;> exact ⟨⟨rfl, rfl⟩, rfl, rfl⟩

/-- One formula planted in two worlds, and perhaps lowered there, evaluates alike. -/
theorem calcChecked_ends (hR : World.Outward R) {nodes nodes' : Set Tree} {formula : Formula}
    {serial serial' : Nat} (hm : m.Upholds (.transplant serial serial') R) (h : R w w')
    (hw : w.slots.Sound nodes) (hw' : w'.slots.Sound nodes')
    (htree : ⟨formula, Layout.ofTree serial⟩ ∈ nodes)
    (htree' : ⟨formula, Layout.ofTree serial'⟩ ∈ nodes') (asValue : Bool) :
    Ends R (calcChecked m ⟨formula, Layout.ofTree serial⟩ asValue w)
      (calcChecked m ⟨formula, Layout.ofTree serial'⟩ asValue w') := by
  have hentered : R w.entered w'.entered :=
    hR.notes h ⟨rfl, rfl⟩ rfl rfl ⟨rfl, rfl⟩ rfl rfl
  obtain ⟨houtcome, hended⟩ := Program.run_ends hm
    (formula.evaluate_similar (formula.matches_transplant serial serial') asValue) hentered
  have hprogram := program_eq_evaluate htree hw asValue
  have hprogram' := program_eq_evaluate htree' hw' asValue
  obtain ⟨halike, hslots, hnext⟩ :=
    calcChecked_alike m ⟨formula, Layout.ofTree serial⟩ asValue w
  obtain ⟨halike', hslots', hnext'⟩ :=
    calcChecked_alike m ⟨formula, Layout.ofTree serial'⟩ asValue w'
  rw [hprogram] at halike hslots hnext
  rw [hprogram'] at halike' hslots' hnext'
  constructor
  · rw [calcChecked_result, calcChecked_result, hprogram, hprogram', houtcome]
  · exact hR.notes hended halike hslots hnext halike' hslots' hnext'

end Tree

/-- A planted tree, lowered or not, is ready for its evaluation in a world that looks as before. -/
theorem World.Fresh.ready (hfresh : w.Fresh) (formula : Formula) (compiled : Bool) (limit : Nat) :
    let planted := w.plant formula
    let ready := if compiled then (planted.1.compile limit planted.2).2 else planted.2
    w.Alike ready ∧ ready.Standing (∅ ∪ planted.1.nodes) := by
  intro planted ready
  have hplanted : planted.2.Standing (∅ ∪ planted.1.nodes) :=
    (World.Standing.of_fresh hfresh).plant formula
  cases compiled with
  | false => exact ⟨⟨rfl, rfl⟩, hplanted⟩
  | true =>
      have halike : w.Alike planted.2 := ⟨rfl, rfl⟩
      exact ⟨halike.trans (planted.1.compile_alike limit planted.2),
        hplanted.compile (.inr planted.1.self_mem_nodes) limit⟩

namespace Machine

/-- Only what a machine is asked could break a relation of what hosts see. -/
theorem upholds_outward (hR : World.Outward R)
    (hask : ∀ {w w'}, R w w' → ∀ request, Ends R (m.ask request w) (m.ask request w'))
    (hdescribe : ∀ {w w'}, R w w' → Ends R (m.describe w) (m.describe w'))
    (hevaluate : ∀ {w w'}, R w w' → ∀ formula compiled asValue,
      Ends R (m.evaluate formula compiled asValue w) (m.evaluate formula compiled asValue w')) :
    m.Upholds ρ R where
  ask := hask
  describe := hdescribe
  evaluate := hevaluate
  nextSerial_eq := hR.nextSerial_eq
  takeSerial := hR.takeSerial
  write h _ := hR.notes h ⟨rfl, rfl⟩ rfl rfl ⟨rfl, rfl⟩ rfl rfl
  keep h _ _ _ _ := hR.notes h ⟨rfl, rfl⟩ rfl rfl ⟨rfl, rfl⟩ rfl rfl
  dump h _ _ _ _ _ _ _ := hR.notes h ⟨rfl, rfl⟩ rfl rfl ⟨rfl, rfl⟩ rfl rfl

/-- The bottom machine answers nobody. -/
theorem bottom_upholds (hR : World.Outward R) : bottom.Upholds ρ R := by
  refine upholds_outward hR ?_ ?_ ?_
  · intro w w' h request
    exact ⟨rfl, h⟩
  · intro w w' h
    exact ⟨rfl, h⟩
  · intro w w' h formula compiled asValue
    exact ⟨rfl, h⟩

/-- What host code evaluates is planted somewhere else in each world. -/
theorem evaluate_ends (hR : World.Outward R) (host : Host) {levels : Nat}
    (hm : ∀ ρ, (ofHost host levels).Upholds ρ R) (h : R w w')
    (formula : Formula) (compiled asValue : Bool) :
    Ends R ((ofHost host (levels + 1)).evaluate formula compiled asValue w)
      ((ofHost host (levels + 1)).evaluate formula compiled asValue w') := by
  obtain ⟨halike, hready⟩ := (hR.fresh h).ready formula compiled defaultDepthLimit
  obtain ⟨halike', hready'⟩ := (hR.fresh' h).ready formula compiled defaultDepthLimit
  have hrelated := hR.congr h halike hready.fresh halike' hready'.fresh
  obtain ⟨hresult, hafter⟩ := Tree.calcChecked_ends hR (hm _) hrelated hready.sound hready'.sound
    (.inr (Tree.self_mem_nodes _)) (.inr (Tree.self_mem_nodes _)) asValue
  exact ⟨congrArg some hresult, hafter⟩

/-- A host cannot tell indistinct worlds apart, however deep it nests. -/
theorem ofHost_upholds (host : Host) (levels : Nat) (ρ : Renaming) :
    (ofHost host levels).Upholds ρ World.Indistinct := by
  induction levels generalizing ρ with
  | zero => exact bottom_upholds World.Indistinct.outward
  | succ levels ih =>
      refine upholds_outward World.Indistinct.outward ?_ ?_ ?_
      · intro w w' h request
        simp only [ofHost, h.calls_eq]
        exact (host.respond w.calls request).run_ends (ih ρ) (h.noteCall _)
      · intro w w' h
        simp only [ofHost, h.calls_eq]
        exact (host.describe w.calls).run_ends (ih ρ) (h.noteCall _)
      · intro w w' h formula compiled asValue
        exact evaluate_ends World.Indistinct.outward host ih h formula compiled asValue

end Machine

end Formulary
