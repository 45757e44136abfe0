import Formulary.Code.Lowering
import Formulary.Code.Run
import Formulary.Proofs.Forest

/-! # Lowered code does what walking does

Code serves a node if running it and keeping the result is, step for step, the program
of walking the node. Every slot of a forest holds code that serves its node, and
lowering any node keeps it so, whichever nodes were lowered before and whatever failed.
-/

namespace Formulary

/-- Running the code and keeping the result is walking the node. -/
def Code.Serves (code : Code) (tree : Tree) : Prop :=
  ∀ asValue, Program.recorded tree.cell (code.run asValue) =
    tree.formula.evaluate tree.layout asValue

/-- The code in every slot of a node serves that node. -/
def Slots.Sound (slots : Slots) (nodes : Set Tree) : Prop :=
  ∀ tree ∈ nodes, ∀ code, slots.code? tree.cell = some code → code.Serves tree

/-- All other cells keep their slots. -/
def Slots.SameOutside (slots later : Slots) (cells : Set Cell) : Prop :=
  ∀ cell, cell ∉ cells → later[cell]? = slots[cell]?

namespace Slots

variable {nodes : Set Tree} {slots : Slots}

theorem getElem?_fill (cell other : Cell) (slot : Slot) :
    (slots.fill cell slot)[other]? =
      if slots[cell]? = none ∧ cell = other then some slot else slots[other]? := by
  unfold fill
  cases hcell : slots[cell]? with
  | some held => simp
  | none => simp [Std.HashMap.getElem?_insert]

theorem code?_eq_some_iff {cell : Cell} {code : Code} :
    slots.code? cell = some code ↔ slots[cell]? = some (.ready code) := by
  unfold code?
  split
  next held hheld => simp [hheld]
  next hother =>
    constructor
    · intro hcode
      cases hcode
    · intro hheld
      exact absurd hheld (hother code)

theorem code?_eq_none {cell : Cell} (hempty : slots[cell]? = none) :
    slots.code? cell = none := by
  simp [code?, hempty]

theorem SameOutside.refl (slots : Slots) (cells : Set Cell) : slots.SameOutside slots cells :=
  fun _ _ => rfl

theorem SameOutside.trans {middle later : Slots} {cells : Set Cell}
    (hfirst : slots.SameOutside middle cells) (hsecond : middle.SameOutside later cells) :
    slots.SameOutside later cells :=
  fun cell hcell => (hsecond cell hcell).trans (hfirst cell hcell)

theorem SameOutside.mono {later : Slots} {cells more : Set Cell}
    (h : slots.SameOutside later cells) (hsubset : cells ⊆ more) :
    slots.SameOutside later more :=
  fun cell hcell => h cell fun hmem => hcell (hsubset hmem)

theorem sameOutside_fill (cell : Cell) (slot : Slot) (cells : Set Cell) :
    slots.SameOutside (slots.fill cell slot) (insert cell cells) := by
  intro other hother
  rw [getElem?_fill, if_neg]
  rintro ⟨_, rfl⟩
  exact hother (Set.mem_insert _ _)

/-- A slot may be filled with anything that serves its node, or with a failure. -/
theorem Sound.fill (hsound : slots.Sound nodes) (hforest : IsForest nodes) {tree : Tree}
    (htree : tree ∈ nodes) {slot : Slot}
    (hslot : ∀ code, slot = .ready code → code.Serves tree) :
    (slots.fill tree.cell slot).Sound nodes := by
  intro node hnode code hcode
  rw [code?_eq_some_iff, getElem?_fill] at hcode
  split at hcode
  next hfilled =>
    obtain rfl := hforest.eq_of_cell_eq htree hnode hfilled.2
    exact hslot code (Option.some.inj hcode)
  next => exact hsound node hnode code (code?_eq_some_iff.mpr hcode)

end Slots

namespace Lowering

variable {α β : Type} {nodes : Set Tree} {cells : Set Cell}

/-- From sound slots the step leads to sound slots, fills none but those of `cells`, and
what it answers meets the condition. -/
def Ensures (nodes : Set Tree) (cells : Set Cell) (step : Lowering α) (post : α → Prop) : Prop :=
  ∀ slots : Slots, slots.Sound nodes →
    (step slots).2.Sound nodes ∧ slots.SameOutside (step slots).2 cells ∧
      ∀ a, (step slots).1 = .ok a → post a

/-- Code that the step answers is in the slot of the cell afterwards. -/
def Fills (nodes : Set Tree) (cell : Cell) (step : Lowering Code) : Prop :=
  ∀ slots : Slots, slots.Sound nodes →
    ∀ code, (step slots).1 = .ok code → (step slots).2[cell]? = some (.ready code)

namespace Ensures

variable {step : Lowering α} {post : α → Prop} {goal : β → Prop}

theorem pure {a : α} (ha : post a) : Ensures nodes cells (.pure a) post := by
  intro slots hsound
  refine ⟨hsound, .refl _ _, ?_⟩
  rintro _ ⟨⟩
  exact ha

theorem fail (error : LoweringError) : Ensures nodes cells (.fail error) post := by
  intro slots hsound
  refine ⟨hsound, .refl _ _, ?_⟩
  intro a ha
  cases ha

theorem mono {more : Set Cell} (hstep : Ensures nodes cells step post) (hsubset : cells ⊆ more) :
    Ensures nodes more step post := by
  intro slots hsound
  obtain ⟨hlater, hsame, hpost⟩ := hstep slots hsound
  exact ⟨hlater, hsame.mono hsubset, hpost⟩

theorem bind {next : α → Lowering β} (hstep : Ensures nodes cells step post)
    (hnext : ∀ a, post a → Ensures nodes cells (next a) goal) :
    Ensures nodes cells (step.bind next) goal := by
  intro slots hsound
  obtain ⟨hmiddle, hsame, hpost⟩ := hstep slots hsound
  unfold Lowering.bind
  cases hrun : step slots with
  | mk outcome middle =>
      rw [hrun] at hmiddle hsame hpost
      cases outcome with
      | ok a =>
          obtain ⟨hlater, hsame', hgoal⟩ := hnext a (hpost a rfl) middle hmiddle
          exact ⟨hlater, hsame.trans hsame', hgoal⟩
      | error error =>
          refine ⟨hmiddle, hsame, ?_⟩
          intro b hb
          cases hb

/-- A slot that was filled before, or is filled now, serves its node. -/
theorem once (hforest : IsForest nodes) {tree : Tree} (htree : tree ∈ nodes) (text : String)
    {step : Lowering Code} (hstep : Ensures nodes cells step (·.Serves tree)) :
    Ensures nodes (insert tree.cell cells) (.once tree.cell text step) (·.Serves tree) := by
  intro slots hsound
  unfold Lowering.once
  split
  next held hheld =>
    refine ⟨hsound, .refl _ _, ?_⟩
    rintro _ ⟨⟩
    exact hsound tree htree held (Slots.code?_eq_some_iff.mpr hheld)
  next hheld =>
    refine ⟨hsound, .refl _ _, ?_⟩
    intro a ha
    cases ha
  next hempty =>
    obtain ⟨hmiddle, hsame, hpost⟩ := hstep slots hsound
    have hsame' := hsame.mono (Set.subset_insert tree.cell cells)
    cases hrun : step slots with
    | mk outcome middle =>
        rw [hrun] at hmiddle hsame' hpost
        cases outcome with
        | ok code =>
            have hserves : code.Serves tree := hpost code rfl
            refine ⟨hmiddle.fill hforest htree ?_,
              hsame'.trans (Slots.sameOutside_fill _ _ _), ?_⟩
            · rintro _ ⟨⟩
              exact hserves
            · rintro _ ⟨⟩
              exact hserves
        | error error =>
            refine ⟨hmiddle.fill hforest htree ?_,
              hsame'.trans (Slots.sameOutside_fill _ _ _), ?_⟩
            · intro code hcode
              cases hcode
            · intro a ha
              cases ha

/-- The slot of a cell is still empty when the others have been filled. -/
theorem once_fills {cell : Cell} (text : String) {step : Lowering Code} {post : Code → Prop}
    (hstep : Ensures nodes cells step post) (hcell : cell ∉ cells) :
    Fills nodes cell (.once cell text step) := by
  intro slots hsound code
  obtain ⟨-, hsame, -⟩ := hstep slots hsound
  have hkept := hsame cell hcell
  cases hslot : slots[cell]? with
  | some slot =>
      cases slot with
      | failed =>
          rw [show Lowering.once cell text step slots =
            (.error (.notCompilable text), slots) by simp only [Lowering.once, hslot]]
          intro hcode
          cases hcode
      | ready held =>
          rw [show Lowering.once cell text step slots = (.ok held, slots) by
            simp only [Lowering.once, hslot]]
          rintro ⟨⟩
          exact hslot
  | none =>
      rw [hslot] at hkept
      cases hrun : step slots with
      | mk outcome middle =>
          rw [hrun] at hkept
          cases outcome with
          | ok built =>
              rw [show Lowering.once cell text step slots =
                (.ok built, middle.fill cell (.ready built)) by
                  simp only [Lowering.once, hslot, hrun]]
              rintro ⟨⟩
              rw [Slots.getElem?_fill, if_pos ⟨hkept, rfl⟩]
          | error error =>
              rw [show Lowering.once cell text step slots =
                (.error error, middle.fill cell .failed) by
                  simp only [Lowering.once, hslot, hrun]]
              intro hcode
              cases hcode

/-- A node whose code serves it once its operands have been lowered. -/
theorem once_node (hforest : IsForest nodes) {tree : Tree} (htree : tree ∈ nodes) (text : String)
    {step : Lowering Code} (hstep : Ensures nodes tree.cellsBelow step (·.Serves tree)) :
    Ensures nodes tree.cells (.once tree.cell text step) (·.Serves tree) ∧
      Fills nodes tree.cell (.once tree.cell text step) := by
  rw [← tree.insert_cellsBelow]
  exact ⟨hstep.once hforest htree text,
    hstep.once_fills text (hforest.cell_notMem_cellsBelow htree)⟩

end Ensures

end Lowering

/-- Collecting the results of two programs in a list before going on. -/
theorem Program.gather_bind {α : Type} (first : Program Value) (rest : Program (List Value))
    (next : List Value → Program α) :
    (do
      let values ← (do
        let value ← first
        let values ← rest
        Program.done (value :: values))
      next values) =
    (do
      let value ← first
      let values ← rest
      next (value :: values)) := by
  refine (Program.bind_assoc first _ next).trans ?_
  refine congrArg (Program.bind first) (funext fun value => ?_)
  exact Program.bind_assoc rest _ next

/-- The code of an operand, with its result kept, runs as the operand is walked. -/
def Code.Walks (code : Code) (tree : Tree) : Prop :=
  ∀ asValue, code.run asValue = tree.formula.evaluate tree.layout asValue

namespace Formula

open Lowering (kept Ensures Fills)

variable {nodes : Set Tree} {cells : Set Cell}

theorem kept_ensures (tree : Tree) (hstep : Ensures nodes cells
      (tree.formula.lower tree.layout) (·.Serves tree)) :
    Ensures nodes cells (kept tree.layout (tree.formula.lower tree.layout)) (·.Walks tree) := by
  refine hstep.bind ?_
  intro code hserves
  exact .pure fun asValue => by rw [Code.run]; exact hserves asValue

theorem lowerAll_ensures {layout : Layout} (operands : List Formula) (i : Nat)
    (hoperands : ∀ j (hj : j < operands.length), Ensures nodes cells
      (kept (layout.below (i + j)) (operands[j].lower (layout.below (i + j))))
      (·.Walks ⟨operands[j], layout.below (i + j)⟩)) :
    Ensures nodes cells (lowerAll layout i operands)
      fun codes => Code.runAll codes = evaluateAll layout i operands := by
  induction operands generalizing i with
  | nil =>
      rw [lowerAll]
      exact .pure (by rw [Code.runAll, evaluateAll])
  | cons operand rest ih =>
      rw [lowerAll]
      refine (hoperands 0 (by simp)).bind ?_
      intro code hcode
      refine (ih (i + 1) ?_).bind ?_
      · intro j hj
        have htail := hoperands (j + 1) (by simpa using hj)
        rwa [show i + (j + 1) = i + 1 + j by omega] at htail
      · intro codes hcodes
        refine .pure ?_
        have hhead : code.run true = operand.evaluate (layout.below i) true := hcode true
        rw [Code.runAll, evaluateAll, hhead, hcodes]

/-- Lowering a node of a forest gives code that serves it, and fills its slot. -/
theorem lower_ensures (hforest : IsForest nodes) (formula : Formula) (layout : Layout)
    (hnode : (⟨formula, layout⟩ : Tree) ∈ nodes) :
    Ensures nodes (Tree.cells ⟨formula, layout⟩) (formula.lower layout)
        (·.Serves ⟨formula, layout⟩) ∧
      Fills nodes layout.root (formula.lower layout) := by
  induction formula using induct generalizing layout with
  | constant value =>
      refine Ensures.once_node hforest hnode _ (.pure fun asValue => ?_)
      rw [Code.run, evaluate]
      rfl
  | identifier name =>
      refine Ensures.once_node hforest hnode _ (.pure fun asValue => ?_)
      rw [Code.run, evaluate]
      rfl
  | precompiled expression =>
      refine Ensures.once_node hforest hnode _ (.pure fun asValue => ?_)
      rw [Code.run, evaluate]
      rfl
  | apply operator native operands hlower =>
      have hkept : ∀ {i : Nat} {operand : Formula}, operands[i]? = some operand →
          Ensures nodes (Tree.cellsBelow ⟨.apply operator native operands, layout⟩)
            (kept (layout.below i) (operand.lower (layout.below i)))
            (·.Walks ⟨operand, layout.below i⟩) := by
        intro i operand hoperand
        obtain ⟨hensures, -⟩ := hlower operand (List.mem_of_getElem? hoperand) _
          (hforest.operand_mem hnode hoperand)
        exact (kept_ensures ⟨operand, layout.below i⟩ hensures).mono
          (Tree.cells_subset_cellsBelow hoperand)
      have hrest : ∀ i, Ensures nodes (Tree.cellsBelow ⟨.apply operator native operands, layout⟩)
          (lowerAll layout i (operands.drop i))
          fun codes => Code.runAll codes = evaluateAll layout i (operands.drop i) := by
        intro i
        refine lowerAll_ensures _ _ fun j hj => hkept ?_
        rw [← List.getElem?_drop]
        exact List.getElem?_eq_getElem hj
      unfold lower
      refine Ensures.once_node hforest hnode _ ?_
      -- What is left to show is that the code of the form does what walking the form does.
      cases hform : operator.form with
      | generic =>
          rcases operands with _ | ⟨left, _ | ⟨right, _ | ⟨third, rest⟩⟩⟩
          · exact .fail _
          · refine (hkept (i := 0) rfl).bind fun code hcode => .pure ?_
            intro asValue
            have hoperand := hcode true
            simp only [Code.run, evaluate, hform, hoperand]
            rfl
          · refine (hkept (i := 0) rfl).bind fun first hfirst =>
              (hkept (i := 1) rfl).bind fun second hsecond => .pure ?_
            intro asValue
            have hleft := hfirst true
            have hright := hsecond true
            simp only [Code.run, evaluate, hform, hleft, hright]
            rfl
          · exact .fail _
      | or | and =>
          rcases operands with _ | ⟨left, _ | ⟨right, _ | ⟨third, rest⟩⟩⟩
          · exact .fail _
          · exact .fail _
          · refine (hkept (i := 0) rfl).bind fun first hfirst =>
              (hkept (i := 1) rfl).bind fun second hsecond => .pure ?_
            intro asValue
            have hleft := hfirst true
            have hright := hsecond true
            simp only [Code.run, evaluate, hform, hleft, hright]
            rfl
          · exact .fail _
      | parenthesis =>
          rcases operands with _ | ⟨inner, _ | ⟨second, rest⟩⟩
          · exact .fail _
          -- Parentheses have no code of their own.
          · refine fun slots hsound => ?_
            obtain ⟨hlater, hsame, hwalks⟩ := hkept (i := 0) rfl slots hsound
            refine ⟨hlater, hsame, fun code hcode asValue => ?_⟩
            have hinner := hwalks code hcode asValue
            simp only [evaluate, hform, hinner]
            rfl
          · exact .fail _
      | dot =>
          rcases operands with _ | ⟨target, _ | ⟨name, _ | ⟨third, rest⟩⟩⟩
          · exact .fail _
          · exact .fail _
          · cases hname : name.identifier? with
            | none =>
                simp only [hname]
                exact .fail _
            | some member =>
                simp only [hname]
                refine (hkept (i := 0) rfl).bind fun code hcode => .pure ?_
                intro asValue
                have htarget := hcode false
                simp only [Code.run, htarget]
                conv_rhs => unfold evaluate
                simp only [hform, hname]
                rfl
          · exact .fail _
      | functionCall =>
          rcases operands with _ | ⟨name, arguments⟩
          · exact .fail _
          · cases hname : name.identifier? with
            | none =>
                simp only [hname]
                exact .fail _
            | some function =>
                simp only [hname]
                refine (hrest 1).bind fun codes hcodes => .pure ?_
                intro asValue
                rw [List.drop_one, List.tail_cons] at hcodes
                simp only [Code.run, hcodes]
                conv_rhs => unfold evaluate
                simp only [hform, hname]
                rfl
      | methodCall =>
          rcases operands with _ | ⟨target, _ | ⟨name, arguments⟩⟩
          · exact .fail _
          · exact .fail _
          · cases hname : name.identifier? with
            | none =>
                simp only [hname]
                exact .fail _
            | some method =>
                simp only [hname]
                refine (hkept (i := 0) rfl).bind fun code hcode =>
                  (hrest 2).bind fun codes hcodes => .pure ?_
                intro asValue
                have htarget := hcode false
                have harguments : Code.runAll codes = evaluateAll layout 2 arguments := hcodes
                simp only [Code.run, htarget, harguments]
                conv_rhs => unfold evaluate
                simp only [hform, hname]
                rfl
      | indexer =>
          rcases operands with _ | ⟨target, _ | ⟨first, rest⟩⟩
          · exact .fail _
          · exact .fail _
          · refine (hkept (i := 0) rfl).bind fun code hcode =>
              (hkept (i := 1) rfl).bind fun index hindex =>
                (hrest 2).bind fun codes hcodes => .pure ?_
            intro asValue
            have htarget := hcode false
            have hfirst := hindex true
            have hindices : Code.runAll codes = evaluateAll layout 2 rest := hcodes
            simp only [Code.run, Code.runAll, htarget, hfirst, hindices]
            conv_rhs => unfold evaluate
            simp only [hform, Program.gather_bind]
            rfl
      | log =>
          rcases operands with _ | ⟨operand, _ | ⟨second, rest⟩⟩
          · exact .fail _
          · refine (hkept (i := 0) rfl).bind fun code hcode => .pure ?_
            intro asValue
            have hoperand := hcode asValue
            simp only [Code.run, evaluate, hform, hoperand]
            rfl
          · exact .fail _
      | dump =>
          rcases operands with _ | ⟨operand, _ | ⟨second, rest⟩⟩
          · exact .fail _
          -- The operand walks even when the node runs code.
          · refine .pure fun asValue => ?_
            simp only [Code.run, evaluate, hform]
            rfl
          · exact .fail _

end Formula

end Formulary
