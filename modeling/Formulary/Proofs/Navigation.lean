import Formulary.Host.Document
import Formulary.Proofs.Canonical
import Formulary.Proofs.Session
import Formulary.Proofs.Visits

/-! # Paths into documents

On the host of a document, a name followed by member accesses and indexings is a path from the root
of the document: what it evaluates to depends on the steps of the path alone, not on how they are
written.
-/

namespace Formulary

open Grammar

/-- A step from a part of a document to a part of that. -/
inductive PathStep where
  | position (i : Int64)
  | key (name : String)

namespace Json

/-- The item at a position of an array, or the field of an object. -/
def child? : Json → PathStep → Option Json
  | array items, .position i => if i < 0 then none else items[i.toInt.toNat]?
  | object fields, .key name => field? fields name
  | _, _ => none

/-- The part at the end of a path, if every step leads somewhere. -/
def part? (document : Json) (path : List PathStep) : Option Json := path.foldlM child? document

theorem get?_eq_child? (document : Json) (name : String) :
    document.get? name = document.child? (.key name) := by
  cases document <;> rfl

end Json

namespace PathStep

/-- The value that a step is as an index. -/
def value : PathStep → Value
  | position i => .int i
  | key name => .string name

theorem step?_value (document : Json) (step : PathStep) :
    document.step? step.value = document.child? step := by
  cases step with
  | key name => cases document <;> rfl
  | position i =>
      cases document with
      | array items =>
          have hnegative : 0 ≤ i ↔ ¬i < 0 := Int64.not_lt.symm
          rw [value, Json.step?, Json.child?]
          simp only [hnegative, ite_not]
      | null | bool | number | string | object => rfl

theorem follow?_values (document : Json) (path : List PathStep) :
    document.follow? (path.map value) = document.part? path := by
  induction path generalizing document with
  | nil => rfl
  | cons step path ih =>
      rw [List.map_cons, Json.follow?, step?_value, Json.part?, List.foldlM_cons]
      cases document.child? step with
      | none => rfl
      | some part => exact ih part

end PathStep

/-- Steps of a path as they are written: one as `.name`, or some between brackets. -/
inductive Link where
  | member (name : String)
  | bracket (first : PathStep) (rest : List PathStep)

namespace Link

def steps : Link → List PathStep
  | member name => [.key name]
  | bracket first rest => first :: rest

/-- Members have names, and the keys between brackets can be quoted. -/
def IsWritable : Link → Prop
  | member name => IsName name
  | bracket first rest => ∀ step ∈ first :: rest, step.value.IsWritable

/-- The formula of the steps after a target. -/
def after (target : Formula) : Link → Formula
  | member name => .node .memberAccess [target, .identifier name]
  | bracket first rest =>
    .node .indexing (target :: (first :: rest).map fun step => .constant step.value)

end Link

/-- The formula of a name and the steps after it. -/
def navigation (name : String) (links : List Link) : Formula :=
  links.foldl Link.after (.identifier name)

/-! ## Programs that come to an end -/

namespace Program

variable {m : Machine} {α β : Type} {P : α → Prop} {Q : β → Prop}

/-- In every world the program ends with a result of a kind. -/
def Yields (m : Machine) (p : Program α) (P : α → Prop) : Prop :=
  ∀ w, ∃ a after, p.run m w = (.answered a, after) ∧ P a

theorem yields_done {a : α} (h : P a) : (done a).Yields m P := fun w => ⟨a, w, rfl, h⟩

theorem Yields.imp {p : Program α} {P Q : α → Prop} (h : p.Yields m P) (himp : ∀ a, P a → Q a) :
    p.Yields m Q := by
  intro w
  obtain ⟨a, after, hrun, ha⟩ := h w
  exact ⟨a, after, hrun, himp a ha⟩

theorem Yields.eq {p : Program α} {a b : α} (ha : p.Yields m (· = a)) (hb : p.Yields m (· = b)) :
    a = b := by
  obtain ⟨_, after, hrun, rfl⟩ := ha {}
  obtain ⟨_, after', hrun', rfl⟩ := hb {}
  exact Outcome.answered.inj (congrArg Prod.fst (hrun.symm.trans hrun'))

theorem Yields.bind {p : Program α} (h : p.Yields m P) {k : α → Program β}
    (hk : ∀ a, P a → (k a).Yields m Q) : (p.bind k).Yields m Q := by
  intro w
  obtain ⟨a, after, hrun, ha⟩ := h w
  rw [run_bind, hrun]
  exact hk a ha after

theorem Yields.recorded {p : Program Value} {P : Value → Prop} (h : p.Yields m P) (cell : Cell) :
    (recorded cell p).Yields m P := by
  intro w
  obtain ⟨value, after, hrun, hvalue⟩ := h w
  exact ⟨value, after.keep cell value, by rw [run_recorded, hrun], hvalue⟩

end Program

/-- The value shows the part of a document, or that there is none. -/
def Value.Shows (part? : Option Json) (value : Value) : Prop :=
  ∃ serial, value = part?.elim .unknown (Value.ofJson serial)

namespace Navigation

variable {root : Json} {levels : Nat}

theorem answerJson?_run {ε : Type} (m : Machine) (part? : Option Json) (w : World) :
    ∃ value after, (Routine.answerJson? part? : Routine Formula ε Value).run m w =
      (.answered value, after) ∧ value.Shows part? := by
  cases part? with
  | none => exact ⟨.unknown, w, rfl, 0, rfl⟩
  | some part =>
      cases part with
      | array | object => exact ⟨_, _, rfl, w.nextSerial, rfl⟩
      | null | bool | number | string => exact ⟨_, w, rfl, 0, rfl⟩

/-- What the document answers is handed out as it is. -/
theorem request_yields_of_run {request : Request} {P : Value → Prop}
    (h : ∀ w, ∃ value after, (Host.documentAnswer root request).run
      (.ofHost (.document root) levels) w = (.answered value, after) ∧ P value) (asValue : Bool) :
    (Program.request request asValue).Yields (.ofHost (.document root) (levels + 1)) P := by
  intro w
  obtain ⟨value, after, hrun, hvalue⟩ := h (w.noteCall (.request request))
  have hask : (Machine.ofHost (.document root) (levels + 1)).ask request w =
      (.answered value, after) := by
    rw [← hrun]
    rfl
  rw [Program.request, Program.run, hask]
  cases asValue with
  | false => exact ⟨value, after, rfl, hvalue⟩
  | true => exact ⟨value, _, rfl, hvalue⟩

/-- A part of the document is handed out. -/
theorem request_yields {request : Request} {part? : Option Json}
    (h : Host.documentAnswer root request = .answerJson? part?) (asValue : Bool) :
    (Program.request request asValue).Yields (.ofHost (.document root) (levels + 1))
      (Value.Shows part?) := by
  refine request_yields_of_run (fun w => ?_) asValue
  rw [h]
  exact answerJson?_run _ part? w

/-- A container is handed out whole; a scalar is no object and has no parts. -/
theorem container_or_scalar (serial : Nat) (part : Json) :
    Value.ofJson serial part = .object (.node serial part) ∨
      (∀ handle, Value.ofJson serial part ≠ .object handle) ∧
        ∀ step, part.child? step = none := by
  have hnumber : ∀ n step, (Json.number n).child? step = none :=
    fun n step => by cases step <;> rfl
  cases part with
  | array | object => exact Or.inl rfl
  | number n =>
      refine Or.inr ⟨fun handle h => ?_, hnumber n⟩
      cases n with
      | natural n =>
          rw [Value.ofJson] at h
          split at h <;> cases h
      | negative | double => cases h
  | null | bool | string =>
      refine Or.inr ⟨fun handle h => ?_, fun step => ?_⟩
      · cases h
      · cases step <;> rfl

theorem member_of_scalar {target : Value} (h : ∀ handle, target ≠ .object handle) (name : String)
    (asValue : Bool) : Program.member target name asValue = .done .unknown := by
  cases target with
  | object handle => exact absurd rfl (h handle)
  | unknown | null | bool | int | float | string => rfl

theorem index_of_scalar {target : Value} (h : ∀ handle, target ≠ .object handle)
    (indices : List Value) (asValue : Bool) :
    Program.index target indices asValue = .done .unknown := by
  cases target with
  | object handle => exact absurd rfl (h handle)
  | unknown | null | bool | int | float | string => rfl

theorem member_yields {target : Value} {part? : Option Json} (h : target.Shows part?)
    (name : String) (asValue : Bool) :
    (Program.member target name asValue).Yields (.ofHost (.document root) (levels + 1))
      (Value.Shows (part?.bind fun part => part.child? (.key name))) := by
  obtain ⟨serial, rfl⟩ := h
  cases part? with
  | none => exact Program.yields_done ⟨0, rfl⟩
  | some part =>
      rw [Option.elim_some, Option.bind_some]
      rcases container_or_scalar serial part with hcontainer | ⟨hscalar, hnone⟩
      · rw [hcontainer, ← Json.get?_eq_child?]
        exact request_yields rfl asValue
      · rw [member_of_scalar hscalar, hnone]
        exact Program.yields_done ⟨0, rfl⟩

theorem index_yields {target : Value} {part? : Option Json} (h : target.Shows part?)
    (first : PathStep) (rest : List PathStep) (asValue : Bool) :
    (Program.index target ((first :: rest).map PathStep.value) asValue).Yields
      (.ofHost (.document root) (levels + 1))
      (Value.Shows (part?.bind fun part => part.part? (first :: rest))) := by
  obtain ⟨serial, rfl⟩ := h
  cases part? with
  | none => exact Program.yields_done ⟨0, rfl⟩
  | some part =>
      rw [Option.elim_some, Option.bind_some]
      rcases container_or_scalar serial part with hcontainer | ⟨hscalar, hnone⟩
      · rw [hcontainer, ← PathStep.follow?_values]
        exact request_yields rfl asValue
      · rw [index_of_scalar hscalar, Json.part?, List.foldlM_cons, hnone]
        exact Program.yields_done ⟨0, rfl⟩

theorem constant_yields (m : Machine) (layout : Layout) (value : Value) :
    ((Formula.constant value).evaluate layout true).Yields m (· = value) := by
  rw [Formula.evaluate]
  refine Program.Yields.recorded ?_ _
  exact Program.yields_done rfl

/-- The values of steps between brackets. -/
theorem evaluateAll_yields (m : Machine) (layout : Layout) (steps : List PathStep) (i : Nat) :
    (Formula.evaluateAll layout i (steps.map fun step => .constant step.value)).Yields m
      (· = steps.map PathStep.value) := by
  induction steps generalizing i with
  | nil => exact Program.yields_done rfl
  | cons step steps ih =>
      rw [List.map_cons, Formula.evaluateAll]
      refine (constant_yields m _ step.value).bind ?_
      rintro value rfl
      refine (ih (i + 1)).bind ?_
      rintro values rfl
      exact Program.yields_done rfl

/-- One more link leads from the part that the target shows to a part of that. -/
theorem after_yields {target : Formula} {part? : Option Json}
    (h : ∀ layout, (target.evaluate layout false).Yields (.ofHost (.document root) (levels + 1))
      (Value.Shows part?)) (link : Link) (layout : Layout) (asValue : Bool) :
    ((link.after target).evaluate layout asValue).Yields (.ofHost (.document root) (levels + 1))
      (Value.Shows (part?.bind fun part => part.part? link.steps)) := by
  cases link with
  | member name =>
      rw [Link.after, Formula.node]
      unfold Formula.evaluate
      refine Program.Yields.recorded ?_ _
      refine (h _).bind fun value hvalue => ?_
      simp only [Link.steps, Json.part?, List.foldlM_cons, List.foldlM_nil, bind_pure]
      exact member_yields hvalue name asValue
  | bracket first rest =>
      rw [Link.after, Formula.node, List.map_cons]
      unfold Formula.evaluate
      refine Program.Yields.recorded ?_ _
      refine (h _).bind fun value hvalue => ?_
      refine (constant_yields _ _ first.value).bind ?_
      rintro index rfl
      refine (evaluateAll_yields _ layout rest 2).bind ?_
      rintro indices rfl
      exact index_yields hvalue first rest asValue

theorem part?_append (document : Json) (path more : List PathStep) :
    document.part? (path ++ more) = (document.part? path).bind fun part => part.part? more :=
  List.foldlM_append

/-- Links one after another. -/
theorem links_yield {target : Formula} {path : List PathStep}
    (h : ∀ layout asValue, (target.evaluate layout asValue).Yields
      (.ofHost (.document root) (levels + 1)) (Value.Shows (root.part? path)))
    (links : List Link) (layout : Layout) (asValue : Bool) :
    ((links.foldl Link.after target).evaluate layout asValue).Yields
      (.ofHost (.document root) (levels + 1))
      (Value.Shows (root.part? (path ++ links.flatMap Link.steps))) := by
  induction links generalizing target path with
  | nil =>
      rw [List.flatMap_nil, List.append_nil]
      exact h layout asValue
  | cons link links ih =>
      rw [List.foldl_cons, List.flatMap_cons, ← List.append_assoc]
      refine ih fun layout asValue => ?_
      rw [part?_append]
      exact after_yields (fun layout => h layout false) link layout asValue

theorem navigation_yields (name : String) (links : List Link) (layout : Layout) (asValue : Bool) :
    ((navigation name links).evaluate layout asValue).Yields (.ofHost (.document root) (levels + 1))
      (Value.Shows (root.part? (.key name :: links.flatMap Link.steps))) := by
  refine @links_yield root levels _ [.key name] (fun layout asValue => ?_) links layout asValue
  rw [Formula.evaluate]
  refine Program.Yields.recorded (request_yields ?_ asValue) _
  rw [Json.part?, List.foldlM_cons, ← Json.get?_eq_child?]
  simp only [List.foldlM_nil, bind_pure]
  rfl

end Navigation

/-! ## Paths are written as formulas -/

theorem Link.derives_after {g : Grammar} {target : Formula} (h : Derives g .primary target)
    {link : Link} (hlink : link.IsWritable) : Derives g .primary (link.after target) := by
  cases link with
  | member name => exact .member h hlink
  | bracket first rest =>
      refine .indexing h (List.cons_ne_nil _ _) fun index hindex => ?_
      obtain ⟨step, hstep, rfl⟩ := List.mem_map.mp hindex
      exact .atom (.constant (hlink step hstep))

theorem Link.exact_after {target : Formula} (h : target.Exact) (link : Link) :
    (link.after target).Exact := by
  cases link with
  | member name =>
      exact Formula.exact_apply (List.forall_mem_cons.mpr
        ⟨h, List.forall_mem_singleton.mpr (Formula.exact_identifier name)⟩)
  | bracket first rest =>
      refine Formula.exact_apply (List.forall_mem_cons.mpr ⟨h, fun index hindex => ?_⟩)
      obtain ⟨step, -, rfl⟩ := List.mem_map.mp hindex
      rintro (_ | ⟨i, path⟩) x hx
      · cases step <;> cases hx
      · cases hx

/-- A path that begins with a name can be written, and reads as what was written. -/
theorem read_navigation {name : String} (hname : IsName name) (hkeyword : keyword? name = none)
    {links : List Link} (hlinks : ∀ link ∈ links, link.IsWritable) :
    standard.read (navigation name links).text = .ok (navigation name links) := by
  have hall : ∀ {target : Formula}, Derives standard .primary target → target.Exact →
      Derives standard .primary (links.foldl Link.after target) ∧
        (links.foldl Link.after target).Exact := by
    induction links with
    | nil => exact fun h hexact => ⟨h, hexact⟩
    | cons link links ih =>
        obtain ⟨hlink, hrest⟩ := List.forall_mem_cons.mp hlinks
        exact fun h hexact => ih hrest (Link.derives_after h hlink) (Link.exact_after hexact link)
  obtain ⟨hderives, hexact⟩ := hall (.identifier hname hkeyword) (Formula.exact_identifier name)
  exact Derives.read_text rfl (.atom hderives) hexact

/-- Evaluating a path on the host of a document, whatever was lowered before, gives the value of the
part at its end, or `unknown` if a step does not exist. How the steps are written makes no
difference but for the serial of a handle. -/
theorem navigation_follows_path (root : Json) {name : String} (hname : IsName name)
    (hkeyword : keyword? name = none) {links : List Link}
    (hlinks : ∀ link ∈ links, link.IsWritable) :
    let formula := navigation name links
    let part? := root.part? (.key name :: links.flatMap Link.steps)
    standard.read formula.text = .ok formula ∧
      ∀ {nodes : Set Tree} {w : World}, w.Reachable nodes → ∀ tree ∈ nodes,
        tree.formula = formula → ∀ asValue limit,
          (∃ serial, (tree.calcOn (.document root) asValue w).1 =
            .ok (part?.elim .unknown (Value.ofJson serial))) ∧
          ∃ serial, (tree.calcOn (.document root) asValue (tree.compile limit w).2).1 =
            .ok (part?.elim .unknown (Value.ofJson serial)) := by
  intro formula part?
  refine ⟨read_navigation hname hkeyword hlinks, ?_⟩
  have hcalc : ∀ {nodes : Set Tree} {w : World}, w.Reachable nodes → ∀ tree ∈ nodes,
      tree.formula = formula → ∀ asValue, ∃ serial,
        (tree.calcOn (.document root) asValue w).1 =
          .ok (part?.elim .unknown (Value.ofJson serial)) := by
    intro nodes w hw tree htree hformula asValue
    obtain ⟨levels, hlevels⟩ := Nat.exists_eq_add_one.mpr (by decide : 0 < nestingLevels)
    obtain ⟨value, after, hrun, serial, rfl⟩ :=
      @Navigation.navigation_yields root levels name links tree.layout asValue w.entered
    refine ⟨serial, ?_⟩
    rw [Tree.calcOn, hlevels, Tree.calcChecked_result,
      Tree.program_eq_evaluate htree hw.standing.sound, hformula]
    change (((navigation name links).evaluate tree.layout asValue).run
      (.ofHost (.document root) (levels + 1)) w.entered).1.trapped = _
    rw [hrun]
    rfl
  intro nodes w hw tree htree hformula asValue limit
  exact ⟨hcalc hw tree htree hformula asValue,
    hcalc (hw.compile htree limit) tree htree hformula asValue⟩

/-- Two steps written as one indexing, to the scalar at their end. -/
theorem merged_steps_follow_path :
    let root : Json := .object [("a", .array [.null, .object [("b", .string "x")]])]
    let formula := navigation "a" [.bracket (.position 1) [.key "b"]]
    let planted := World.plant {} formula
    IsName "a" ∧ keyword? "a" = none ∧ standard.read formula.text = .ok formula ∧
      (planted.1.calcOn (.document root) true planted.2).1 = .ok (.string "x") := by
  intro root formula planted
  have hname : IsName "a" := ⟨'a', [], rfl, rfl, fun _ hc => by cases hc⟩
  have hlinks : ∀ link ∈ [Link.bracket (.position 1) [.key "b"]], link.IsWritable := by
    refine List.forall_mem_singleton.mpr (List.forall_mem_cons.mpr ⟨trivial, ?_⟩)
    exact List.forall_mem_singleton.mpr (Or.inl (by decide))
  obtain ⟨hreachable, hplanted⟩ := World.Reachable.first formula
  obtain ⟨hread, hcalc⟩ := navigation_follows_path root hname rfl hlinks
  obtain ⟨⟨serial, hvalue⟩, -⟩ := hcalc hreachable planted.1 hplanted rfl true 256
  exact ⟨hname, rfl, hread, hvalue⟩

end Formulary
