import Mathlib.Data.Set.Lattice
import Formulary.Proofs.Evaluation
import Formulary.Proofs.Shape

/-! # Why a formula cannot be lowered

A tree whose nodes have never been lowered is lowered unless it is too deep or a node
that has to be lowered is malformed; the first such node, from the root downwards and
from left to right, is the one that is reported. What is read is never malformed.
-/

namespace Formulary

/-- What is wrong with the operands of a node, apart from what they are like themselves. -/
def Operator.fault? (op : Operator) (operands : List Formula) : Option Malformation :=
  let count (expected : OperandCount) : Option Malformation :=
    some (.operandCount op.symbol expected operands.length)
  let name (operand : Formula) : Option Malformation :=
    if operand.identifier?.isSome then none else some (.expectedIdentifier op.symbol)
  match op.form with
  | .generic =>
    match operands with
    | [_] => none
    | [_, _] => none
    | _ => count .oneOrTwo
  | .or | .and =>
    match operands with
    | [_, _] => none
    | _ => count (.exactly 2)
  | .parenthesis | .log | .dump =>
    match operands with
    | [_] => none
    | _ => count (.exactly 1)
  | .dot =>
    match operands with
    | [_, member] => name member
    | _ => count (.exactly 2)
  | .functionCall =>
    match operands with
    | function :: _ => name function
    | _ => count (.atLeast 1)
  | .methodCall =>
    match operands with
    | _ :: method :: _ => name method
    | _ => count (.atLeast 2)
  | .indexer =>
    match operands with
    | _ :: _ :: _ => none
    | _ => count (.atLeast 2)

/-- What belongs to the operands that are lowered with a node: not to a name, and not to
what is dumped. -/
def Form.lowered {α : Type} (form : Form) (items : List α) : List α :=
  match form with
  | .dump => []
  | _ => Formula.dropAt items form.namePosition?

/-- Whether the code of a node runs the code of its operand at a position. Names are taken out of
their operands, and what is dumped is walked. -/
def Form.calls (form : Form) (i : Nat) : Bool := form != .dump && form.namePosition? != some i

/-- What belongs to the operands whose code is run, the first item standing at position `i`. -/
def Form.called {α : Type} (form : Form) (i : Nat) : List α → List α
  | [] => []
  | item :: rest =>
    if form.calls i then item :: form.called (i + 1) rest else form.called (i + 1) rest

/-- The first of some faults. -/
def firstFault (faults : List (Option Malformation)) : Option Malformation :=
  faults.foldr Option.or none

namespace Formula

mutual

/-- The fault of the first malformed node among those that are lowered with this one. -/
def fault? : Formula → Option Malformation
  | apply op _ operands =>
    (op.fault? operands).or (firstFault (op.form.lowered (faults operands)))
  | _ => none

def faults : List Formula → List (Option Malformation)
  | [] => []
  | operand :: rest => operand.fault? :: faults rest

end

/-- Why a formula that has not been lowered before cannot be lowered up to a depth. -/
def refusal? (formula : Formula) (limit : Nat) : Option LoweringError :=
  if limit < formula.depth then some (.maxDepthExceeded formula.depth limit)
  else formula.fault?.map .malformed

end Formula

namespace Layout

/-- The cells of the operands from some position on. -/
def operandsFrom (layout : Layout) (i : Nat) : Set Cell :=
  {cell | ∃ j path, i ≤ j ∧ layout (j :: path) = cell}

variable {layout : Layout}

theorem operandsFrom_subset {i j : Nat} (h : i ≤ j) :
    layout.operandsFrom j ⊆ layout.operandsFrom i := by
  rintro cell ⟨k, path, hk, hcell⟩
  exact ⟨k, path, h.trans hk, hcell⟩

theorem range_below_subset (i : Nat) : Set.range (layout.below i) ⊆ layout.operandsFrom i := by
  rintro cell ⟨path, hcell⟩
  exact ⟨i, path, le_rfl, hcell⟩

theorem below_injective (h : Function.Injective layout) (i : Nat) :
    Function.Injective (layout.below i) := by
  intro p q hpq
  simpa using h hpq

/-- The cells of an operand are not among those of later operands. -/
theorem range_below_notMem (h : Function.Injective layout) (i : Nat) :
    ∀ cell ∈ Set.range (layout.below i), cell ∉ layout.operandsFrom (i + 1) := by
  rintro cell ⟨path, rfl⟩ ⟨j, other, hj, hcell⟩
  have hpath := h hcell
  simp at hpath
  omega

theorem insert_operandsFrom (layout : Layout) :
    insert layout.root (layout.operandsFrom 0) = Set.range layout := by
  ext cell
  constructor
  · rintro (rfl | ⟨j, path, -, hcell⟩)
    · exact ⟨[], rfl⟩
    · exact ⟨j :: path, hcell⟩
  · rintro ⟨path, hcell⟩
    cases path with
    | nil => exact Or.inl hcell.symm
    | cons j path => exact Or.inr ⟨j, path, Nat.zero_le j, hcell⟩

theorem ofTree_injective (serial : Nat) : Function.Injective (ofTree serial) := by
  intro p q hpq
  simpa [ofTree] using hpq

end Layout

namespace Lowering

variable {α β : Type} {cells more : Set Cell} {fault fault' : Option Malformation}

/-- As long as the slots of some cells are empty the step fills no others, and it fails
exactly with the given fault. -/
def Decides (cells : Set Cell) (step : Lowering α) (fault : Option Malformation) : Prop :=
  ∀ slots : Slots, (∀ cell ∈ cells, slots[cell]? = none) →
    slots.SameOutside (step slots).2 cells ∧
      ((fault = none ∧ ∃ a, (step slots).1 = .ok a) ∨
        ∃ found, fault = some found ∧ (step slots).1 = .error (.malformed found))

namespace Decides

variable {step : Lowering α}

theorem pure (a : α) : Decides cells (.pure a) none :=
  fun _ _ => ⟨.refl _ _, .inl ⟨rfl, a, rfl⟩⟩

theorem fail (found : Malformation) :
    Decides cells (.fail (.malformed found) : Lowering α) (some found) :=
  fun _ _ => ⟨.refl _ _, .inr ⟨found, rfl, rfl⟩⟩

theorem mono (h : Decides cells step fault) (hsubset : cells ⊆ more) :
    Decides more step fault := by
  intro slots hempty
  obtain ⟨hsame, houtcome⟩ := h slots fun cell hcell => hempty cell (hsubset hcell)
  exact ⟨hsame.mono hsubset, houtcome⟩

/-- One step after another one that leaves its slots empty. -/
theorem bind {next : α → Lowering β} (h : Decides cells step fault)
    (hnext : ∀ a, Decides more (next a) fault') (hdisjoint : ∀ cell ∈ cells, cell ∉ more) :
    Decides (cells ∪ more) (step.bind next) (fault.or fault') := by
  intro slots hempty
  obtain ⟨hsame, houtcome⟩ := h slots fun cell hcell => hempty cell (Or.inl hcell)
  have hunion := hsame.mono (Set.subset_union_left (t := more))
  unfold Lowering.bind
  cases hrun : step slots with
  | mk outcome middle =>
      rw [hrun] at hsame houtcome hunion
      rcases houtcome with ⟨rfl, a, rfl⟩ | ⟨found, rfl, rfl⟩
      · have hstill : ∀ cell ∈ more, middle[cell]? = none := by
          intro cell hcell
          rw [hsame cell fun hmem => hdisjoint cell hmem hcell]
          exact hempty cell (Or.inr hcell)
        obtain ⟨hsame', houtcome'⟩ := hnext a middle hstill
        exact ⟨hunion.trans (hsame'.mono Set.subset_union_right), houtcome'⟩
      · exact ⟨hunion, .inr ⟨found, rfl, rfl⟩⟩

/-- An empty slot is filled, and what filled it decides. -/
theorem once {step : Lowering Code} {cell : Cell} (h : Decides cells step fault) (text : String) :
    Decides (insert cell cells) (.once cell text step) fault := by
  intro slots hempty
  obtain ⟨hsame, houtcome⟩ :=
    h slots fun other hother => hempty other (Set.mem_insert_of_mem _ hother)
  have hsame' := hsame.mono (Set.subset_insert cell cells)
  simp only [Lowering.once, hempty cell (Set.mem_insert _ _)]
  cases hrun : step slots with
  | mk outcome middle =>
      rw [hrun] at hsame' houtcome
      rcases houtcome with ⟨rfl, code, rfl⟩ | ⟨found, rfl, rfl⟩
      · exact ⟨hsame'.trans (Slots.sameOutside_fill _ _ _), .inl ⟨rfl, code, rfl⟩⟩
      · exact ⟨hsame'.trans (Slots.sameOutside_fill _ _ _), .inr ⟨found, rfl, rfl⟩⟩

theorem map (h : Decides cells step fault) (f : α → β) :
    Decides cells (step.bind fun a => .pure (f a)) fault := by
  have hbind : Decides (cells ∪ ∅) (step.bind fun a => .pure (f a)) (fault.or none) :=
    h.bind (fun a => .pure (f a)) fun _ _ => Set.notMem_empty _
  rwa [Set.union_empty, Option.or_none] at hbind

/-- The operand at some position, and then those after it. -/
theorem operand {layout : Layout} (hinjective : Function.Injective layout) {i : Nat}
    {next : α → Lowering β} (h : Decides (Set.range (layout.below i)) step fault)
    (hnext : ∀ a, Decides (layout.operandsFrom (i + 1)) (next a) fault') :
    Decides (layout.operandsFrom i) (step.bind next) (fault.or fault') := by
  refine (h.bind hnext (Layout.range_below_notMem hinjective i)).mono ?_
  exact Set.union_subset (Layout.range_below_subset i) (Layout.operandsFrom_subset (Nat.le_succ i))

end Decides

end Lowering

@[simp] theorem firstFault_cons (fault : Option Malformation) (rest : List (Option Malformation)) :
    firstFault (fault :: rest) = fault.or (firstFault rest) := rfl

theorem firstFault_eq_none {faults : List (Option Malformation)}
    (h : ∀ fault ∈ faults, fault = none) : firstFault faults = none := by
  induction faults with
  | nil => rfl
  | cons fault rest ih =>
      obtain ⟨hfault, hrest⟩ := List.forall_mem_cons.mp h
      rw [firstFault_cons, hfault, Option.none_or, ih hrest]

theorem Form.mem_of_mem_lowered {α : Type} {form : Form} {items : List α} {item : α}
    (h : item ∈ form.lowered items) : item ∈ items := by
  unfold lowered at h
  split at h
  · cases h
  · unfold Formula.dropAt at h
    split at h
    · exact h
    · exact List.mem_of_mem_eraseIdx h

namespace Form

variable {α : Type} {form : Form} {i : Nat}

/-- The operands behind the name are all called. -/
theorem calls_behind (hdump : form ≠ .dump) {k : Nat} (hname : form.namePosition? = some k)
    (j : Nat) (hj : k < j) : form.calls j = true := by
  have hbehind : form.namePosition? ≠ some j := by
    rw [hname, ne_eq, Option.some.injEq]
    exact hj.ne
  rw [calls, bne_iff_ne.mpr hdump, bne_iff_ne.mpr hbehind, Bool.and_true]

theorem called_cons (h : form.calls i = true) (item : α) (rest : List α) :
    form.called i (item :: rest) = item :: form.called (i + 1) rest := by
  rw [called, if_pos h]

theorem called_skip (h : form.calls i = false) (item : α) (rest : List α) :
    form.called i (item :: rest) = form.called (i + 1) rest := by
  rw [called, if_neg (by rw [h]; exact Bool.false_ne_true)]

theorem called_all (hall : ∀ j, i ≤ j → form.calls j = true) (items : List α) :
    form.called i items = items := by
  induction items generalizing i with
  | nil => rfl
  | cons item rest ih =>
      rw [called_cons (hall i le_rfl), ih fun j hj => hall j (Nat.le_of_succ_le hj)]

theorem called_none (hnone : ∀ j, form.calls j = false) (items : List α) :
    form.called i items = [] := by
  induction items generalizing i with
  | nil => rfl
  | cons item rest ih => rw [called_skip (hnone i), ih]

theorem called_eraseIdx (hdump : form ≠ .dump) {k : Nat} (hname : form.namePosition? = some (i + k))
    (items : List α) : form.called i items = items.eraseIdx k := by
  induction items generalizing i k with
  | nil => rfl
  | cons item rest ih =>
      cases k with
      | zero =>
          have hskip : form.calls i = false := by simp [calls, hname]
          rw [called_skip hskip, List.eraseIdx_cons_zero]
          exact called_all (calls_behind hdump hname) rest
      | succ k =>
          have hcalls : form.calls i = true := by simp [calls, hname, hdump]
          rw [called_cons hcalls, List.eraseIdx_cons_succ, ih]
          rw [hname, Nat.add_right_comm, Nat.add_assoc]

/-- The operands that are lowered with a node are those that its code calls. -/
theorem lowered_eq_called (form : Form) (items : List α) :
    form.lowered items = form.called 0 items := by
  by_cases hdump : form = .dump
  · subst hdump
    exact (called_none (fun _ => rfl) items).symm
  · have hlowered : form.lowered items = Formula.dropAt items form.namePosition? := by
      cases form <;> first | rfl | exact absurd rfl hdump
    rw [hlowered]
    cases hname : form.namePosition? with
    | none => exact (called_all (fun j _ => by simp [calls, hname, hdump]) items).symm
    | some k =>
        rw [← Nat.zero_add k] at hname
        exact (called_eraseIdx hdump hname items).symm

end Form

/-- A node with the operands of its form has no fault of its own. -/
theorem Form.Admits.fault?_eq_none {op : Operator} {operands : List Formula}
    (h : op.form.Admits operands) : op.fault? operands = none := by
  generalize hform : op.form = form at h
  cases h <;> simp [Operator.fault?, hform, Formula.identifier?]

/-- The operands of a node without a fault are those of its form. -/
theorem Operator.admits_of_fault?_eq_none {op : Operator} {operands : List Formula}
    (h : op.fault? operands = none) : op.form.Admits operands := by
  have hname {operand : Formula} {fault : Malformation}
      (h : (if operand.identifier?.isSome then none else some fault) = none) :
      ∃ name, operand = .identifier name := by
    cases operand with
    | identifier name => exact ⟨name, rfl⟩
    | constant | precompiled | apply => cases h
  unfold fault? at h
  generalize op.form = form at h ⊢
  cases form with
  | generic =>
      rcases operands with _ | ⟨left, _ | ⟨right, _ | ⟨third, rest⟩⟩⟩
      · cases h
      · exact .unary left
      · exact .binary left right
      · cases h
  | or =>
      rcases operands with _ | ⟨left, _ | ⟨right, _ | ⟨third, rest⟩⟩⟩
      · cases h
      · cases h
      · exact .disjunction left right
      · cases h
  | and =>
      rcases operands with _ | ⟨left, _ | ⟨right, _ | ⟨third, rest⟩⟩⟩
      · cases h
      · cases h
      · exact .conjunction left right
      · cases h
  | parenthesis =>
      rcases operands with _ | ⟨inner, _ | ⟨second, rest⟩⟩
      · cases h
      · exact .grouping inner
      · cases h
  | log =>
      rcases operands with _ | ⟨operand, _ | ⟨second, rest⟩⟩
      · cases h
      · exact .log operand
      · cases h
  | dump =>
      rcases operands with _ | ⟨operand, _ | ⟨second, rest⟩⟩
      · cases h
      · exact .dump operand
      · cases h
  | dot =>
      rcases operands with _ | ⟨target, _ | ⟨member, _ | ⟨third, rest⟩⟩⟩
      · cases h
      · cases h
      · obtain ⟨name, rfl⟩ := hname h
        exact .member target name
      · cases h
  | functionCall =>
      rcases operands with _ | ⟨function, arguments⟩
      · cases h
      · obtain ⟨name, rfl⟩ := hname h
        exact .functionCall name arguments
  | methodCall =>
      rcases operands with _ | ⟨target, _ | ⟨method, arguments⟩⟩
      · cases h
      · cases h
      · obtain ⟨name, rfl⟩ := hname h
        exact .methodCall target name arguments
  | indexer =>
      rcases operands with _ | ⟨target, _ | ⟨first, rest⟩⟩
      · cases h
      · cases h
      · exact .indexing target first rest

/-! ## Lowering a node

As with evaluations, the ten forms are told apart once.
-/

namespace Lowering

variable {α β γ : Type}

theorem bind_pure (step : Lowering α) : step.bind pure = step := by
  funext slots
  unfold bind
  split
  next heq => exact heq.symm
  next heq => exact heq.symm

theorem bind_assoc (step : Lowering α) (next : α → Lowering β) (last : β → Lowering γ) :
    (step.bind next).bind last = step.bind fun a => (next a).bind last := by
  funext slots
  simp only [bind]
  cases step slots with
  | mk outcome later => cases outcome <;> rfl

end Lowering

namespace Formula

open Lowering (kept)

/-- The code of the operands that the code of a node runs, the first of the operands standing at
position `i`. -/
def lowerOperands (layout : Layout) (form : Form) (i : Nat) : List Formula → Lowering (List Code)
  | [] => .pure []
  | operand :: rest =>
    if form.calls i then
      (kept (layout.below i) (operand.lower (layout.below i))).bind fun code =>
        (lowerOperands layout form (i + 1) rest).bind fun codes => .pure (code :: codes)
    else lowerOperands layout form (i + 1) rest

section Operands

variable {layout : Layout} {form : Form} {i : Nat}

theorem lowerOperands_cons (h : form.calls i = true) (operand : Formula) (rest : List Formula) :
    lowerOperands layout form i (operand :: rest) =
      (kept (layout.below i) (operand.lower (layout.below i))).bind fun code =>
        (lowerOperands layout form (i + 1) rest).bind fun codes => .pure (code :: codes) := by
  rw [lowerOperands, if_pos h]

theorem lowerOperands_skip (h : form.calls i = false) (operand : Formula) (rest : List Formula) :
    lowerOperands layout form i (operand :: rest) = lowerOperands layout form (i + 1) rest := by
  rw [lowerOperands, if_neg (by rw [h]; exact Bool.false_ne_true)]

theorem lowerOperands_all (operands : List Formula) (hall : ∀ j, i ≤ j → form.calls j = true) :
    lowerOperands layout form i operands = lowerAll layout i operands := by
  induction operands generalizing i with
  | nil =>
      rw [lowerOperands, lowerAll]
      rfl
  | cons operand rest ih =>
      rw [lowerOperands_cons (hall i le_rfl), lowerAll,
        ih fun j hj => hall j (Nat.le_of_succ_le hj)]
      rfl

end Operands

/-- Lowering an operator node: unless its operands are not those of its form, those that its code
runs are lowered and their code put together. -/
theorem lower_apply (layout : Layout) (op : Operator) (native : Option (Native Formula))
    (operands : List Formula) : ∃ code : List Code → Code,
      lower layout (apply op native operands) =
        .once layout.root (apply op native operands).text
          (match op.fault? operands with
          | some fault => .fail (.malformed fault)
          | none => (lowerOperands layout op.form 0 operands).bind fun codes =>
              .pure (code codes)) := by
  unfold lower
  refine Exists.imp (fun code h => congrArg (Lowering.once layout.root _) h) ?_
  cases hform : op.form with
  | generic =>
      rcases operands with _ | ⟨left, _ | ⟨right, _ | ⟨third, rest⟩⟩⟩
      · exact ⟨fun _ => default, by simp only [Operator.fault?, hform]⟩
      · refine ⟨fun codes => .unary op (codes.headD default), ?_⟩
        simp only [Operator.fault?, hform]
        rw [lowerOperands_cons rfl, Lowering.bind_assoc]
        rfl
      · refine ⟨fun codes => .binary op (codes.headD default) (codes.getLastD default), ?_⟩
        simp only [Operator.fault?, hform]
        rw [lowerOperands_cons rfl, lowerOperands_cons rfl]
        simp only [Lowering.bind_assoc]
        rfl
      · exact ⟨fun _ => default, by simp only [Operator.fault?, hform]⟩
  | or =>
      rcases operands with _ | ⟨left, _ | ⟨right, _ | ⟨third, rest⟩⟩⟩
      · exact ⟨fun _ => default, by simp only [Operator.fault?, hform]⟩
      · exact ⟨fun _ => default, by simp only [Operator.fault?, hform]⟩
      · refine ⟨fun codes => .or (codes.headD default) (codes.getLastD default), ?_⟩
        simp only [Operator.fault?, hform]
        rw [lowerOperands_cons rfl, lowerOperands_cons rfl]
        simp only [Lowering.bind_assoc]
        rfl
      · exact ⟨fun _ => default, by simp only [Operator.fault?, hform]⟩
  | and =>
      rcases operands with _ | ⟨left, _ | ⟨right, _ | ⟨third, rest⟩⟩⟩
      · exact ⟨fun _ => default, by simp only [Operator.fault?, hform]⟩
      · exact ⟨fun _ => default, by simp only [Operator.fault?, hform]⟩
      · refine ⟨fun codes => .and (codes.headD default) (codes.getLastD default), ?_⟩
        simp only [Operator.fault?, hform]
        rw [lowerOperands_cons rfl, lowerOperands_cons rfl]
        simp only [Lowering.bind_assoc]
        rfl
      · exact ⟨fun _ => default, by simp only [Operator.fault?, hform]⟩
  | parenthesis =>
      rcases operands with _ | ⟨inner, _ | ⟨second, rest⟩⟩
      · exact ⟨fun _ => default, by simp only [Operator.fault?, hform]⟩
      · refine ⟨fun codes => codes.headD default, ?_⟩
        simp only [Operator.fault?, hform]
        rw [lowerOperands_cons rfl, Lowering.bind_assoc]
        exact (Lowering.bind_pure _).symm
      · exact ⟨fun _ => default, by simp only [Operator.fault?, hform]⟩
  | log =>
      rcases operands with _ | ⟨operand, _ | ⟨second, rest⟩⟩
      · exact ⟨fun _ => default, by simp only [Operator.fault?, hform]⟩
      · refine ⟨fun codes => .log operand.text (codes.headD default), ?_⟩
        simp only [Operator.fault?, hform]
        rw [lowerOperands_cons rfl, Lowering.bind_assoc]
        rfl
      · exact ⟨fun _ => default, by simp only [Operator.fault?, hform]⟩
  | dump =>
      rcases operands with _ | ⟨operand, _ | ⟨second, rest⟩⟩
      · exact ⟨fun _ => default, by simp only [Operator.fault?, hform]⟩
      · refine ⟨fun _ => .dump ⟨operand, layout.below 0⟩, ?_⟩
        simp only [Operator.fault?, hform]
        rw [lowerOperands_skip rfl]
        rfl
      · exact ⟨fun _ => default, by simp only [Operator.fault?, hform]⟩
  | dot =>
      rcases operands with _ | ⟨target, _ | ⟨name, _ | ⟨third, rest⟩⟩⟩
      · exact ⟨fun _ => default, by simp only [Operator.fault?, hform]⟩
      · exact ⟨fun _ => default, by simp only [Operator.fault?, hform]⟩
      · cases hname : name.identifier? with
        | none => exact ⟨fun _ => default, by simp [Operator.fault?, hform, hname]⟩
        | some member =>
            refine ⟨fun codes => .member (codes.headD default) member, ?_⟩
            simp only [Operator.fault?, hform, hname, Option.isSome_some, if_true]
            rw [lowerOperands_cons rfl, lowerOperands_skip rfl, Lowering.bind_assoc]
            rfl
      · exact ⟨fun _ => default, by simp only [Operator.fault?, hform]⟩
  | functionCall =>
      rcases operands with _ | ⟨name, arguments⟩
      · exact ⟨fun _ => default, by simp only [Operator.fault?, hform]⟩
      · cases hname : name.identifier? with
        | none => exact ⟨fun _ => default, by simp [Operator.fault?, hform, hname]⟩
        | some function =>
            refine ⟨fun codes => .function native function codes, ?_⟩
            simp only [Operator.fault?, hform, hname, Option.isSome_some, if_true]
            rw [lowerOperands_skip rfl, lowerOperands_all _ (Form.calls_behind (by decide) rfl)]
            rfl
  | methodCall =>
      rcases operands with _ | ⟨target, _ | ⟨name, arguments⟩⟩
      · exact ⟨fun _ => default, by simp only [Operator.fault?, hform]⟩
      · exact ⟨fun _ => default, by simp only [Operator.fault?, hform]⟩
      · cases hname : name.identifier? with
        | none => exact ⟨fun _ => default, by simp [Operator.fault?, hform, hname]⟩
        | some method =>
            refine ⟨fun codes => .method (codes.headD default) method codes.tail, ?_⟩
            simp only [Operator.fault?, hform, hname, Option.isSome_some, if_true]
            rw [lowerOperands_cons rfl, lowerOperands_skip rfl,
              lowerOperands_all _ (Form.calls_behind (by decide) rfl)]
            simp only [Lowering.bind_assoc]
            rfl
  | indexer =>
      rcases operands with _ | ⟨target, _ | ⟨first, rest⟩⟩
      · exact ⟨fun _ => default, by simp only [Operator.fault?, hform]⟩
      · exact ⟨fun _ => default, by simp only [Operator.fault?, hform]⟩
      · refine ⟨fun codes => .index (codes.headD default) codes.tail, ?_⟩
        simp only [Operator.fault?, hform]
        rw [lowerOperands_cons rfl, lowerOperands_cons rfl, lowerOperands_all _ fun _ _ => rfl]
        simp only [Lowering.bind_assoc]
        rfl

end Formula

namespace Formula

open Lowering (kept Decides)

@[simp] theorem faults_nil : faults [] = [] := by rw [faults]

@[simp] theorem faults_cons (operand : Formula) (rest : List Formula) :
    faults (operand :: rest) = operand.fault? :: faults rest := by rw [faults]

theorem faults_eq_map (operands : List Formula) : faults operands = operands.map fault? := by
  induction operands with
  | nil => exact faults_nil
  | cons operand rest ih => rw [faults_cons, ih, List.map_cons]

theorem lowerOperands_decides {layout : Layout} (hinjective : Function.Injective layout)
    {form : Form} (operands : List Formula) (i : Nat)
    (hoperands : ∀ j (hj : j < operands.length), Decides (Set.range (layout.below (i + j)))
      (kept (layout.below (i + j)) (operands[j].lower (layout.below (i + j))))
      operands[j].fault?) :
    Decides (layout.operandsFrom i) (lowerOperands layout form i operands)
      (firstFault (form.called i (faults operands))) := by
  induction operands generalizing i with
  | nil =>
      rw [lowerOperands, faults_nil]
      exact .pure []
  | cons operand rest ih =>
      have hrest : Decides (layout.operandsFrom (i + 1)) (lowerOperands layout form (i + 1) rest)
          (firstFault (form.called (i + 1) (faults rest))) := by
        refine ih (i + 1) fun j hj => ?_
        have htail := hoperands (j + 1) (Nat.succ_lt_succ hj)
        rwa [show i + (j + 1) = i + 1 + j by omega] at htail
      rw [faults_cons]
      cases hcalls : form.calls i with
      | true =>
          rw [lowerOperands_cons hcalls, Form.called_cons hcalls, firstFault_cons]
          exact (hoperands 0 (Nat.succ_pos _)).operand hinjective fun code => hrest.map (code :: ·)
      | false =>
          rw [lowerOperands_skip hcalls, Form.called_skip hcalls]
          exact hrest.mono (Layout.operandsFrom_subset (Nat.le_succ i))

/-- Lowering a node none of whose cells has a filled slot fails exactly if a node that is
lowered with it is malformed. -/
theorem lower_decides (formula : Formula) {layout : Layout}
    (hinjective : Function.Injective layout) :
    Decides (Set.range layout) (formula.lower layout) formula.fault? := by
  rw [← layout.insert_operandsFrom]
  induction formula using induct generalizing layout with
  | constant value => exact (Decides.pure _).once _
  | identifier name => exact (Decides.pure _).once _
  | precompiled expression => exact (Decides.pure _).once _
  | apply operator native operands ih =>
      obtain ⟨code, hlower⟩ := lower_apply layout operator native operands
      rw [hlower, fault?, Form.lowered_eq_called]
      refine Decides.once ?_ _
      cases operator.fault? operands with
      | some fault => exact .fail fault
      | none =>
          rw [Option.none_or]
          refine (lowerOperands_decides hinjective operands 0 fun j hj => ?_).map code
          rw [Nat.zero_add]
          have hoperand := ih operands[j] (List.getElem_mem hj)
            (Layout.below_injective hinjective j)
          rw [Layout.insert_operandsFrom] at hoperand
          exact hoperand.map _

/-- What is well shaped has no fault. -/
theorem WellShaped.fault?_eq_none {functions : FunctionTable} {formula : Formula}
    (h : formula.WellShaped functions) : formula.fault? = none := by
  induction formula using induct with
  | constant value => simp [fault?]
  | identifier name => simp [fault?]
  | precompiled expression => simp [fault?]
  | apply operator native operands ih =>
      rw [fault?, h.root.1.fault?_eq_none, Option.none_or]
      refine firstFault_eq_none fun fault hfault => ?_
      have hmem := Form.mem_of_mem_lowered hfault
      rw [faults_eq_map] at hmem
      obtain ⟨operand, hoperand, rfl⟩ := List.mem_map.mp hmem
      exact ih operand hoperand (h.operand hoperand)

end Formula

namespace Tree

/-- A tree that was planted just now can be lowered unless it is too deep or malformed. -/
theorem tryCompile_planted {w : World} (hfresh : w.Fresh) (formula : Formula) (limit : Nat) :
    let planted := w.plant formula
    (formula.refusal? limit = none ∧ ∃ code, (planted.1.tryCompile limit planted.2).1 = .ok code) ∨
      ∃ error, formula.refusal? limit = some error ∧
        (planted.1.tryCompile limit planted.2).1 = .error error := by
  intro planted
  have hempty : ∀ cell ∈ Set.range (Layout.ofTree w.nextTree), w.slots[cell]? = none := by
    rintro cell ⟨path, rfl⟩
    exact hfresh _ le_rfl
  have hroot : w.slots[planted.1.cell]? = none := hempty _ ⟨[], rfl⟩
  simp only [tryCompile, lower, planted, World.plant, Formula.refusal?] at hroot ⊢
  rw [hroot]
  by_cases hdeep : limit < formula.depth
  · simp [hdeep]
  · obtain ⟨-, houtcome⟩ :=
      formula.lower_decides (Layout.ofTree_injective w.nextTree) w.slots hempty
    simp only [hdeep, if_false]
    rcases houtcome with ⟨hfault, code, hcode⟩ | ⟨found, hfault, herror⟩
    · exact .inl ⟨by rw [hfault, Option.map_none], code, hcode⟩
    · exact .inr ⟨.malformed found, by rw [hfault, Option.map_some], herror⟩

end Tree

end Formulary
