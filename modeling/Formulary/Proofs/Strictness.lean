import Formulary.Proofs.Engines

/-! # Strict and lenient engines

A strict and a lenient engine with the same tables read the same texts and evaluate the
same formulas, whatever their other settings are. Where the strict one answers with a value,
so does the lenient one; where the lenient one answers `unknown`, the strict one says
whether that was the value, an error that the boundary trapped, or a formula that it
refused because it cannot be lowered.
-/

namespace Formulary

namespace Engine

variable {e lenient strict : Engine} {nodes nodes' : Set Tree} {w w' : World} {text : String}

/-- How the evaluation of a text ends, before the engine judges it; nothing if there is none. -/
def outcome? (e : Engine) (text : String) (host : Host) (w : World) :
    Option (Except EvalError Value) :=
  match e.parseCached text w with
  | (.ok tree, _, w) => some (tree.calcOn host true w).1
  | (.error _, _, _) => none

/-- The engine lowers formulas, and lowering a new tree of the text fails. -/
def CannotLower (e : Engine) (text : String) (w : World) (fault : LoweringError) : Prop :=
  e.settings.allowCompilation = true ∧ ∃ formula, e.grammar.read text = .ok formula ∧
    ((w.plant formula).1.tryCompile e.settings.maxDepth (w.plant formula).2).1 = .error fault

/-- A strict engine refuses what it cannot lower. -/
theorem cannotLower_iff (hfresh : w.Fresh) (hstrict : e.settings.strict = true)
    {fault : LoweringError} : e.CannotLower text w fault ↔
      ∃ formula, e.grammar.read text = .ok formula ∧ e.refusal? formula = some fault := by
  have hrefusal : ∀ formula, e.refusal? formula = some fault ↔ e.settings.allowCompilation = true ∧
      ((w.plant formula).1.tryCompile e.settings.maxDepth (w.plant formula).2).1 =
        .error fault := by
    intro formula
    rw [refusal?, hstrict, Bool.and_true]
    have houtcome := Tree.tryCompile_planted hfresh formula e.settings.maxDepth
    simp only at houtcome
    rcases houtcome with ⟨hnone, code, hcode⟩ | ⟨error, hsome, herror⟩
    · simp [hnone, hcode]
    · simp [hsome, herror]
  constructor
  · rintro ⟨hallow, formula, hread, hfault⟩
    exact ⟨formula, hread, (hrefusal formula).mpr ⟨hallow, hfault⟩⟩
  · rintro ⟨formula, hread, hfault⟩
    obtain ⟨hallow, hfault⟩ := (hrefusal formula).mp hfault
    exact ⟨hallow, formula, hread, hfault⟩

/-- The evaluation ends like that of a new tree. -/
theorem outcome?_eq (h : e.Reachable nodes w) (text : String) (host : Host) {formula : Formula}
    (hreading : e.reading text = .ok formula) : e.outcome? text host w =
      some ((w.plant formula).1.calcOn host true (w.plant formula).2).1 := by
  have hserved := parseCached_served h.sound.1 h.sound.2 text
  unfold outcome?
  cases hparse : e.parseCached text w with
  | mk result rest =>
      obtain ⟨e', after⟩ := rest
      rw [hparse] at hserved
      cases result with
      | error error =>
          rw [hserved.error error rfl] at hreading
          cases hreading
      | ok tree =>
          have htree := hserved.tree tree rfl
          obtain rfl : tree.formula = formula :=
            Except.ok.inj (htree.reading_eq.symm.trans hreading)
          obtain ⟨hresult, -⟩ :=
            htree.calcOn_spec hserved.reachable host h.sound.1.standing.fresh hserved.alike.symm
          exact congrArg some hresult

/-- A lenient engine turns errors into `unknown`. -/
theorem verdict_of_lenient (hlenient : e.settings.strict = false) (formula : Formula)
    (outcome : Except EvalError Value) :
    e.verdict formula outcome = .ok (outcome.toOption.getD .unknown) := by
  cases outcome <;> simp [verdict, hlenient, Except.toOption]

/-- What a lenient and a strict engine answer: neither reads the text; or it is read, the
lenient one answers with the value or `unknown`, and the strict one refuses the formula or
judges how the same evaluation ended. -/
theorem answer_cases (hlenient : lenient.settings.strict = false)
    (hgrammar : strict.grammar = lenient.grammar) (text : String) (host : Host) (w : World) :
    (∃ found, strict.grammar.read text = .error found ∧
      (lenient.answer text host w).1 = .error (.parse found) ∧
      (strict.answer text host w).1 = .error (.parse found)) ∨
    ∃ formula, strict.grammar.read text = .ok formula ∧ lenient.reading text = .ok formula ∧
      let ending := (w.plant formula).1.calcOn host true (w.plant formula).2
      (lenient.answer text host w).1 = .ok (ending.1.toOption.getD .unknown) ∧
      ((∃ fault, strict.refusal? formula = some fault ∧
          (strict.answer text host w).1 = .error (.compilation fault)) ∨
        strict.refusal? formula = none ∧
          (strict.answer text host w).1 = strict.verdict formula ending.1 ∧
          (strict.answer text host w).2 = (lenient.answer text host w).2) := by
  cases hread : strict.grammar.read text with
  | error found =>
      have hlenientRead : lenient.grammar.read text = .error found := by rw [← hgrammar, hread]
      rw [answer_of_error (reading_of_read_error hlenientRead),
        answer_of_error (reading_of_read_error hread)]
      exact .inl ⟨found, rfl, rfl, rfl⟩
  | ok formula =>
      have hlenientRead : lenient.grammar.read text = .ok formula := by rw [← hgrammar, hread]
      have haccepted : lenient.reading text = .ok formula := by
        rw [reading_of_read_ok hlenientRead]
        simp [refusal?, hlenient]
      have hanswer := answer_of_ok haccepted host w
      refine .inr ⟨formula, rfl, haccepted, ?_, ?_⟩
      · rw [hanswer]
        exact verdict_of_lenient hlenient formula _
      · cases hrefusal : strict.refusal? formula with
        | some fault =>
            have hrefused : strict.reading text = .error (.compilation fault) := by
              rw [reading_of_read_ok hread, hrefusal, Option.elim_some]
            rw [answer_of_error hrefused]
            exact .inl ⟨fault, rfl, rfl⟩
        | none =>
            have hreading : strict.reading text = .ok formula := by
              rw [reading_of_read_ok hread, hrefusal, Option.elim_none]
            rw [answer_of_ok hreading, hanswer]
            exact .inr ⟨rfl, rfl, rfl⟩

/-- A strict and a lenient engine agree: they report the same texts as unreadable, which is
all that the lenient one reports; a value of the strict one is not `unknown` and is what the
lenient one answers, with the same questions to the host; the strict one refuses exactly
what cannot be lowered; of what it does not refuse it answers with every value but `unknown`
that the lenient one has; and where that is `unknown` it reports the trapped error or, if
there is none, the unknown result. -/
theorem strict_agrees_with_lenient (hl : lenient.Reachable nodes w)
    (hs : strict.Reachable nodes' w') (hlenient : lenient.settings.strict = false)
    (hstrict : strict.settings.strict = true) (hgrammar : strict.grammar = lenient.grammar)
    (halike : w.Alike w') (text : String) (host : Host) :
    let l := lenient.evaluate text host w
    let s := strict.evaluate text host w'
    (∀ error, l.1 = .error error → ∃ found, error = .parse found) ∧
    (∀ found, l.1 = .error (.parse found) ↔ s.1 = .error (.parse found)) ∧
    (∀ value, s.1 = .ok value →
      value ≠ .unknown ∧ l.1 = .ok value ∧ s.2.2.calls = l.2.2.calls) ∧
    (∀ fault, s.1 = .error (.compilation fault) ↔ strict.CannotLower text w' fault) ∧
    (∀ value, l.1 = .ok value → value ≠ .unknown →
      s.1 = .ok value ∨ ∃ fault, s.1 = .error (.compilation fault)) ∧
    (l.1 = .ok .unknown → ∃ outcome, lenient.outcome? text host w = some outcome ∧
      ((∃ fault, s.1 = .error (.compilation fault)) ∨
        (∃ error, outcome = .error error ∧ s.1 = .error (.evaluation error)) ∨
        outcome = .ok .unknown ∧ ∃ formula, strict.grammar.read text = .ok formula ∧
          s.1 = .error (.unknownResult formula.text))) := by
  intro l s
  obtain ⟨hl₁, hcalls, -, -⟩ :=
    evaluate_spec hl.sound.1 hl.sound.2 text host hl.sound.1.standing.fresh (.refl w)
  obtain ⟨hs₁, hcalls', -, -⟩ :=
    evaluate_spec hs.sound.1 hs.sound.2 text host hl.sound.1.standing.fresh halike.symm
  have hrefused : ∀ fault, strict.CannotLower text w' fault ↔
      ∃ formula, strict.grammar.read text = .ok formula ∧ strict.refusal? formula = some fault :=
    fun _ => cannotLower_iff hs.sound.1.standing.fresh hstrict
  rcases answer_cases hlenient hgrammar text host w with ⟨found, hread, hlanswer, hsanswer⟩ |
    ⟨formula, hread, hreading, hlanswer, ⟨fault, hrefusal, hsanswer⟩ | ⟨hrefusal, hsanswer, hsame⟩⟩
  · rw [hl₁.trans hlanswer, hs₁.trans hsanswer]
    simp [hrefused, hread]
  · have houtcome := outcome?_eq hl text host hreading
    rw [hl₁.trans hlanswer, hs₁.trans hsanswer]
    simp [hrefused, hread, hrefusal, houtcome]
  · have houtcome := outcome?_eq hl text host hreading
    rw [hl₁.trans hlanswer, hs₁.trans hsanswer]
    cases hending : ((w.plant formula).1.calcOn host true (w.plant formula).2).1 with
    | error error =>
        simp [hrefused, hread, hrefusal, houtcome, hending, verdict, hstrict, Except.toOption]
    | ok value =>
        by_cases hunknown : value = .unknown
        · simp [hrefused, hread, hrefusal, houtcome, hending, verdict, hstrict, hunknown,
            Value.isUnknown, Except.toOption]
        · have hknown : value.isUnknown = false := by
            cases value with
            | unknown => exact absurd rfl hunknown
            | null | bool | int | float | string | object => rfl
          have hquestions : s.2.2.calls = l.2.2.calls := by
            rw [← hcalls.calls_eq, ← hcalls'.calls_eq, hsame]
          simp [hrefused, hread, hrefusal, houtcome, verdict, hknown, hunknown,
            hquestions, Except.toOption]

/-- A call that no function answers, on new engines. -/
theorem strict_agrees_with_lenient_on_call :
    let lenient : Engine := {}
    let strict : Engine := { settings := { strict := true } }
    lenient.Reachable ∅ {} ∧ strict.Reachable ∅ {} ∧ lenient.settings.strict = false ∧
      strict.settings.strict = true ∧ strict.grammar = lenient.grammar ∧
      let l := lenient.evaluate "f(1)" .empty {}
      let s := strict.evaluate "f(1)" .empty {}
      (∀ found, l.1 = .error (.parse found) ↔ s.1 = .error (.parse found)) ∧
        ∀ value, s.1 = .ok value →
          value ≠ .unknown ∧ l.1 = .ok value ∧ s.2.2.calls = l.2.2.calls := by
  intro lenient strict
  have hl : lenient.Reachable ∅ {} := .new .start .standard {}
  have hs : strict.Reachable ∅ {} := .new .start .standard { strict := true }
  obtain ⟨-, hparse, hvalue, -⟩ :=
    strict_agrees_with_lenient hl hs rfl rfl rfl (.refl _) "f(1)" .empty
  exact ⟨hl, hs, rfl, rfl, rfl, hparse, hvalue⟩

end Engine

end Formulary
