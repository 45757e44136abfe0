import Formulary.Function.Mathematics
import Formulary.Proofs.Doubles

/-! # The least and the greatest number

The best number so far is compared with the next one, exactly if both are integers and as doubles
otherwise, and only the final choice is brought to the common type. Mixed comparisons are not
transitive, but each of them respects the order of doubles, because promotion does. With a NaN no
comparison succeeds: a NaN replaces the best number so far, and the next number replaces the NaN, so
that everything before it is forgotten.
-/

namespace Formulary

/-! ## Comparisons with one answer left out -/

section Linear

variable {α : Type} [LinearOrder α] {surpassing : Ordering}

theorem swap_ne_self (h : surpassing ≠ .eq) : surpassing.swap ≠ surpassing := by
  cases surpassing with
  | eq => exact absurd rfl h
  | lt => exact Ordering.noConfusion
  | gt => exact Ordering.noConfusion

theorem swap_ne_eq (h : surpassing ≠ .eq) : surpassing.swap ≠ .eq := by
  cases surpassing with
  | eq => exact absurd rfl h
  | lt => exact Ordering.noConfusion
  | gt => exact Ordering.noConfusion

theorem compare_ne_refl (h : surpassing ≠ .eq) (a : α) : compare a a ≠ surpassing := by
  rw [compare_eq_iff_eq.mpr rfl]
  exact h.symm

theorem compare_ne_trans (h : surpassing ≠ .eq) {a b c : α} (hab : compare a b ≠ surpassing)
    (hbc : compare b c ≠ surpassing) : compare a c ≠ surpassing := by
  cases surpassing with
  | eq => exact absurd rfl h
  | lt => exact compare_ge_iff_ge.mpr ((compare_ge_iff_ge.mp hbc).trans (compare_ge_iff_ge.mp hab))
  | gt => exact compare_le_iff_le.mpr ((compare_le_iff_le.mp hab).trans (compare_le_iff_le.mp hbc))

theorem compare_ne_swap {a b : α} (h : compare a b ≠ surpassing.swap) :
    compare b a ≠ surpassing := fun hba => h <| by
  rw [← hba, ← cmp_eq_compare, ← cmp_eq_compare, cmp_swap]

end Linear

namespace Value

/-- Whether a value is a double that is not a number. -/
def isNaN : Value → Bool
  | float x => x.isNaN
  | _ => false

/-- The key of a number, which an integer has from its promotion. -/
def sortKey (v : Value) : SortKey :=
  match v.toFloat? with
  | some x => Formulary.sortKey x
  | none => sortKeyOf (.zero .positive)

/-- The exact value of an integer. -/
def toInt : Value → ℤ
  | int i => i.toInt
  | _ => 0

/-! ## Comparing numbers -/

variable {v w : Value}

/-- Two integers are compared exactly, and other numbers as doubles. -/
theorem compare?_numbers (hv : v.isNumeric = true) (hw : w.isNumeric = true)
    (hvNaN : v.isNaN = false) (hwNaN : w.isNaN = false) :
    v.compare? w = some (if v.isInt && w.isInt then compare v.toInt w.toInt
      else compare v.sortKey w.sortKey) := by
  cases v with
  | int i =>
      cases w with
      | int j => rfl
      | float y => exact compareFloats?_eq_sortKey (promote_isNaN i) hwNaN
      | _ => exact absurd hw Bool.false_ne_true
  | float x =>
      cases w with
      | int j => exact compareFloats?_eq_sortKey hvNaN (promote_isNaN j)
      | float y => exact compareFloats?_eq_sortKey hvNaN hwNaN
      | _ => exact absurd hw Bool.false_ne_true
  | _ => exact absurd hv Bool.false_ne_true

theorem isNumeric_of_isInt (h : v.isInt = true) : v.isNumeric = true := by
  cases v with
  | int i => rfl
  | _ => exact absurd h Bool.false_ne_true

theorem isNaN_of_isInt (h : v.isInt = true) : v.isNaN = false := by
  cases v with
  | int i => rfl
  | _ => exact absurd h Bool.false_ne_true

theorem compare?_of_isInt (hv : v.isInt = true) (hw : w.isInt = true) :
    v.compare? w = some (compare v.toInt w.toInt) := by
  rw [compare?_numbers (isNumeric_of_isInt hv) (isNumeric_of_isInt hw) (isNaN_of_isInt hv)
    (isNaN_of_isInt hw), hv, hw]
  rfl

theorem compare?_of_isNaN (h : v.isNaN = true ∨ w.isNaN = true) : v.compare? w = none := by
  rcases h with h | h
  · cases v with
    | float x =>
        cases w with
        | int j => exact compareFloats?_of_isNaN (Or.inl h)
        | float y => exact compareFloats?_of_isNaN (Or.inl h)
        | _ => rfl
    | _ => exact absurd h Bool.false_ne_true
  · cases w with
    | float y =>
        cases v with
        | int i => exact compareFloats?_of_isNaN (Or.inr h)
        | float x => exact compareFloats?_of_isNaN (Or.inr h)
        | _ => rfl
    | _ => exact absurd h Bool.false_ne_true

theorem isNaN_of_compare? {o : Ordering} (h : v.compare? w = some o) :
    v.isNaN = false ∧ w.isNaN = false := by
  constructor
  · refine Bool.eq_false_iff.mpr fun hNaN => ?_
    rw [compare?_of_isNaN (Or.inl hNaN)] at h
    exact Option.some_ne_none o h.symm
  · refine Bool.eq_false_iff.mpr fun hNaN => ?_
    rw [compare?_of_isNaN (Or.inr hNaN)] at h
    exact Option.some_ne_none o h.symm

/-- Promotion keeps the order of two integers or makes them equal. -/
theorem compare_sortKey (hv : v.isInt = true) (hw : w.isInt = true) :
    compare v.sortKey w.sortKey = compare v.toInt w.toInt ∨ compare v.sortKey w.sortKey = .eq := by
  have hmono {v w : Value} (hv : v.isInt = true) (hw : w.isInt = true) (h : v.toInt ≤ w.toInt) :
      v.sortKey ≤ w.sortKey := by
    cases v with
    | int i =>
        cases w with
        | int j => exact sortKey_promote_mono h
        | _ => exact absurd hw Bool.false_ne_true
    | _ => exact absurd hv Bool.false_ne_true
  rcases lt_trichotomy v.toInt w.toInt with h | h | h
  · rw [compare_lt_iff_lt.mpr h, compare_lt_iff_lt, compare_eq_iff_eq]
    exact (hmono hv hw h.le).lt_or_eq
  · exact Or.inr (compare_eq_iff_eq.mpr ((hmono hv hw h.le).antisymm (hmono hw hv h.ge)))
  · rw [compare_gt_iff_gt.mpr h, compare_gt_iff_gt, compare_eq_iff_eq]
    exact (hmono hw hv h.le).lt_or_eq.imp id Eq.symm

/-! ## The best number so far -/

/-- The one of two numbers that a strategy goes on with. -/
def preferred (keep : Value → Value → Bool) (best candidate : Value) : Value :=
  if keep best candidate then best else candidate

theorem preferred_eq_or (keep : Value → Value → Bool) (best candidate : Value) :
    preferred keep best candidate = best ∨ preferred keep best candidate = candidate := by
  rw [preferred]
  split
  · exact Or.inl rfl
  · exact Or.inr rfl

theorem extremeFrom_cons {keep : Value → Value → Bool} {best candidate : Value} {rest : List Value}
    (h : candidate.isNumeric = true) : extremeFrom keep best (candidate :: rest) =
      extremeFrom keep (preferred keep best candidate) rest := if_pos h

/-- The final choice is one of the numbers. -/
theorem extremeFrom_mem (keep : Value → Value → Bool) (best : Value) {rest : List Value}
    (hrest : ∀ v ∈ rest, v.isNumeric = true) :
    ∃ result ∈ best :: rest, extremeFrom keep best rest = some result := by
  induction rest generalizing best with
  | nil => exact ⟨best, List.mem_cons_self, rfl⟩
  | cons candidate rest ih =>
      obtain ⟨hcandidate, hrest⟩ := List.forall_mem_cons.mp hrest
      obtain ⟨result, hmem, hresult⟩ := ih (preferred keep best candidate) hrest
      refine ⟨result, ?_, (extremeFrom_cons hcandidate).trans hresult⟩
      rcases List.mem_cons.mp hmem with rfl | hmem
      · rcases preferred_eq_or keep best candidate with heq | heq
        · exact List.mem_cons.mpr (Or.inl heq)
        · exact List.mem_cons_of_mem best (List.mem_cons.mpr (Or.inl heq))
      · exact List.mem_cons_of_mem best (List.mem_cons_of_mem candidate hmem)

/-- How two numbers are decided upon agrees with a preorder. A NaN is never kept, and whatever comes
before one is given up without regard to the order. -/
structure Respects (keep : Value → Value → Bool) (P : Value → Prop) (R : Value → Value → Prop) :
    Prop where
  isNumeric : ∀ v, P v → v.isNumeric = true
  refl : ∀ v, R v v
  trans : ∀ u v w, R u v → R v w → R u w
  kept : ∀ v w, P v → P w → keep v w = true → v.isNaN = false ∧ R w v
  replaced : ∀ v w, P v → P w → v.isNaN = false → w.isNaN = false → keep v w = false → R v w

namespace Respects

variable {keep : Value → Value → Bool} {P : Value → Prop} {R : Value → Value → Prop}
  {best candidate result : Value} {rest post : List Value}

/-- Both of two numbers stand before the one that is preferred. A NaN has no say in that. -/
theorem preferred (hR : Respects keep P R) (hbest : P best) (hcandidate : P candidate)
    (hNaN : candidate.isNaN = false) :
    (preferred keep best candidate).isNaN = false ∧ R candidate (preferred keep best candidate) ∧
      (best.isNaN = false → R best (preferred keep best candidate)) := by
  by_cases hkeep : keep best candidate = true
  · rw [Value.preferred, if_pos hkeep]
    obtain ⟨hbestNaN, hle⟩ := hR.kept best candidate hbest hcandidate hkeep
    exact ⟨hbestNaN, hle, fun _ => hR.refl best⟩
  · rw [Value.preferred, if_neg hkeep]
    exact ⟨hNaN, hR.refl candidate, fun hbestNaN => hR.replaced best candidate hbest hcandidate
      hbestNaN hNaN (Bool.eq_false_iff.mpr hkeep)⟩

/-- The final choice stands after every number that no NaN follows. The induction is on the numbers
still to come: what stands before the preferred one stands before the final choice as well. -/
theorem extremeFrom (hR : Respects keep P R) (hbest : P best) (hrest : ∀ w ∈ rest, P w)
    (h : Value.extremeFrom keep best rest = some result) (hsuffix : v :: post <:+ best :: rest)
    (hNaN : ∀ w ∈ v :: post, w.isNaN = false) : R v result := by
  induction rest generalizing best v post with
  | nil =>
      obtain rfl : best = result := Option.some_inj.mp h
      rcases List.suffix_cons_iff.mp hsuffix with heq | hsuffix
      · rw [(List.cons.inj heq).1]
        exact hR.refl best
      · exact absurd (List.suffix_nil.mp hsuffix) (List.cons_ne_nil v post)
  | cons candidate rest ih =>
      obtain ⟨hcandidate, hrest⟩ := List.forall_mem_cons.mp hrest
      rw [extremeFrom_cons (hR.isNumeric candidate hcandidate)] at h
      have hnext : P (Value.preferred keep best candidate) := by
        rcases preferred_eq_or keep best candidate with heq | heq <;> rwa [heq]
      have hfinal (hcandidateNaN : candidate.isNaN = false)
          (hrestNaN : ∀ w ∈ rest, w.isNaN = false) :
          R (Value.preferred keep best candidate) result :=
        ih hnext hrest h List.suffix_rfl
          (List.forall_mem_cons.mpr ⟨(hR.preferred hbest hcandidate hcandidateNaN).1, hrestNaN⟩)
      obtain ⟨hvNaN, hpostNaN⟩ := List.forall_mem_cons.mp hNaN
      rcases List.suffix_cons_iff.mp hsuffix with heq | hsuffix
      · obtain ⟨rfl, rfl⟩ := List.cons.inj heq
        obtain ⟨hcandidateNaN, hrestNaN⟩ := List.forall_mem_cons.mp hpostNaN
        have hle := (hR.preferred hbest hcandidate hcandidateNaN).2.2 hvNaN
        exact hR.trans _ _ _ hle (hfinal hcandidateNaN hrestNaN)
      · rcases List.suffix_cons_iff.mp hsuffix with heq | hsuffix
        · obtain ⟨rfl, rfl⟩ := List.cons.inj heq
          have hle := (hR.preferred hbest hcandidate hvNaN).2.1
          exact hR.trans _ _ _ hle (hfinal hvNaN hpostNaN)
        · exact ih hnext hrest h (List.suffix_cons_iff.mpr (Or.inr hsuffix)) hNaN

end Respects

/-! ## Ranks -/

variable {accepts : Ordering → Bool} {surpassing : Ordering}

theorem isOrdered_of_compare? {o : Ordering} (h : v.compare? w = some o) :
    isOrdered accepts v w = accepts o := by
  rw [isOrdered, h]

theorem compare?_of_isOrdered (h : isOrdered accepts v w = true) :
    ∃ o, v.compare? w = some o ∧ accepts o = true := by
  rw [isOrdered] at h
  cases hcompare : v.compare? w with
  | some o => exact ⟨o, rfl, by rwa [hcompare] at h⟩
  | none =>
      rw [hcompare] at h
      exact absurd h Bool.false_ne_true

/-- A rank of the numbers of a kind: two of them have the order of their ranks, or equal ranks. -/
structure IsRank {α : Type} [LinearOrder α] (P : Value → Prop) (rank : Value → α) : Prop where
  isNumeric : ∀ v, P v → v.isNumeric = true
  compare_eq : ∀ v w, P v → P w → ∀ o, v.compare? w = some o →
    compare (rank v) (rank w) = o ∨ compare (rank v) (rank w) = .eq

theorem IsRank.compare_ne {α : Type} [LinearOrder α] {P : Value → Prop} {rank : Value → α}
    (hrank : IsRank P rank) (hv : P v) (hw : P w) {o o' : Ordering} (h : v.compare? w = some o)
    (ho : o ≠ o') (hne : o' ≠ .eq) : compare (rank v) (rank w) ≠ o' := by
  rcases hrank.compare_eq v w hv hw o h with heq | heq
  · rwa [heq]
  · rw [heq]
    exact hne.symm

/-- To keep the best number unless the next one surpasses it is in keeping with every rank. -/
theorem IsRank.respects {α : Type} [LinearOrder α] {P : Value → Prop} {rank : Value → α}
    (hrank : IsRank P rank) (hne : surpassing ≠ .eq)
    (haccepts : ∀ o, accepts o = (o != surpassing.swap)) :
    Respects (isOrdered accepts) P (fun v w => compare (rank v) (rank w) ≠ surpassing) where
  isNumeric := hrank.isNumeric
  refl v := compare_ne_refl hne (rank v)
  trans _ _ _ := compare_ne_trans hne
  kept v w hv hw hkeep := by
    obtain ⟨o, hcompare, ho⟩ := compare?_of_isOrdered hkeep
    rw [haccepts, bne_iff_ne] at ho
    exact ⟨(isNaN_of_compare? hcompare).1,
      compare_ne_swap (hrank.compare_ne hv hw hcompare ho (swap_ne_eq hne))⟩
  replaced v w hv hw hvNaN hwNaN hkeep := by
    have hcompare := compare?_numbers (hrank.isNumeric v hv) (hrank.isNumeric w hw) hvNaN hwNaN
    rw [isOrdered_of_compare? hcompare, haccepts, bne_eq_false_iff_eq] at hkeep
    rw [hkeep] at hcompare
    exact hrank.compare_ne hv hw hcompare (swap_ne_self hne) hne

/-- Integers are ranked by their exact values. -/
theorem isRank_toInt : IsRank (fun v => v.isInt = true) toInt where
  isNumeric _ hv := isNumeric_of_isInt hv
  compare_eq v w hv hw o h := by
    rw [compare?_of_isInt hv hw] at h
    exact Or.inl (Option.some_inj.mp h)

/-- All numbers are ranked by their keys. -/
theorem isRank_sortKey : IsRank (fun v => v.isNumeric = true) sortKey where
  isNumeric _ hv := hv
  compare_eq v w hv hw o h := by
    obtain ⟨hvNaN, hwNaN⟩ := isNaN_of_compare? h
    rw [compare?_numbers hv hw hvNaN hwNaN, Option.some_inj] at h
    split at h
    next hints =>
      rw [Bool.and_eq_true] at hints
      rw [← h]
      exact compare_sortKey hints.1 hints.2
    next => exact Or.inl h

/-! ## Minimum and maximum -/

theorem exists_toFloat? (h : v.isNumeric = true) : ∃ x, v.toFloat? = some x := by
  cases v with
  | int i => exact ⟨promote i, rfl⟩
  | float x => exact ⟨x, rfl⟩
  | _ => exact absurd h Bool.false_ne_true

theorem looseEq_refl_of_isInt (h : v.isInt = true) : v.looseEq v = true := by
  cases v with
  | int i => exact beq_self_eq_true i
  | _ => exact absurd h Bool.false_ne_true

theorem looseEq_toFloat? {x : Float} (h : v.toFloat? = some x) (hNaN : x.isNaN = false) :
    v.looseEq (float x) = true := by
  have hself : (x == x) = true := (beq_iff_sortKey hNaN hNaN).mpr rfl
  cases v with
  | int i =>
      obtain rfl : promote i = x := Option.some_inj.mp h
      exact hself
  | float y =>
      obtain rfl : y = x := Option.some_inj.mp h
      exact hself
  | _ => exact absurd h.symm (Option.some_ne_none x)

/-- What an extreme of numbers is: the least if a smaller number would surpass it, and the greatest
if a larger one would. -/
structure IsExtreme (surpassing : Ordering) (args : List Value) (result : Value) : Prop where
  /-- It is an integer exactly if all numbers are. -/
  isInt_iff : result.isInt = true ↔ ∀ v ∈ args, v.isInt = true
  /-- It is one of the numbers, as it is or as a double. -/
  attained : ∃ v ∈ args, (result = v ∨ v.toFloat?.map float = some result) ∧
    (result.isNaN = false → v.looseEq result = true)
  /-- Only a number before a NaN can surpass it. -/
  unsurpassed : ∀ v post, v :: post <:+ args → v.compare? result = some surpassing →
    ∃ w ∈ post, w.isNaN = true

/-- Without a NaN among them no number surpasses their extreme. -/
theorem IsExtreme.compare?_ne {args : List Value} {result : Value}
    (h : IsExtreme surpassing args result) (hNaN : ∀ v ∈ args, v.isNaN = false) (hv : v ∈ args) :
    v.compare? result ≠ some surpassing := fun hcompare => by
  obtain ⟨pre, post, rfl⟩ := List.append_of_mem hv
  obtain ⟨w, hw, hwNaN⟩ := h.unsurpassed v post (List.suffix_append pre _) hcompare
  have hmem := List.mem_append_right pre (List.mem_cons_of_mem v hw)
  exact Bool.false_ne_true ((hNaN w hmem).symm.trans hwNaN)

/-- The final choice among integers is their extreme. -/
theorem isExtreme_of_isInt (hne : surpassing ≠ .eq)
    (haccepts : ∀ o, accepts o = (o != surpassing.swap)) {first best : Value} {rest : List Value}
    (hints : ∀ v ∈ first :: rest, v.isInt = true) (hmem : best ∈ first :: rest)
    (hbest : extremeFrom (isOrdered accepts) first rest = some best) :
    IsExtreme surpassing (first :: rest) best where
  isInt_iff := iff_of_true (hints best hmem) hints
  attained := ⟨best, hmem, Or.inl rfl, fun _ => looseEq_refl_of_isInt (hints best hmem)⟩
  unsurpassed v post hsuffix hcompare := by
    obtain ⟨hfirst, hrest⟩ := List.forall_mem_cons.mp hints
    have hstands := (isRank_toInt.respects hne haccepts).extremeFrom hfirst hrest hbest hsuffix
      (fun w hw => isNaN_of_isInt (hints w (hsuffix.mem hw)))
    rw [compare?_of_isInt (hints v (hsuffix.mem List.mem_cons_self)) (hints best hmem),
      Option.some_inj] at hcompare
    exact absurd hcompare hstands

/-- The final choice among numbers is their extreme, as a double if not all of them are integers. -/
theorem isExtreme_of_isNumeric (hne : surpassing ≠ .eq)
    (haccepts : ∀ o, accepts o = (o != surpassing.swap)) {first best : Value} {rest : List Value}
    {x : Float} (hnumeric : ∀ v ∈ first :: rest, v.isNumeric = true)
    (hints : ¬∀ v ∈ first :: rest, v.isInt = true) (hmem : best ∈ first :: rest)
    (hbest : extremeFrom (isOrdered accepts) first rest = some best)
    (hx : best.toFloat? = some x) : IsExtreme surpassing (first :: rest) (float x) where
  isInt_iff := iff_of_false Bool.false_ne_true hints
  attained := ⟨best, hmem, Or.inr (congrArg (Option.map float) hx), looseEq_toFloat? hx⟩
  unsurpassed v post hsuffix hcompare := by
    obtain ⟨hfirst, hrest⟩ := List.forall_mem_cons.mp hnumeric
    by_contra hnone
    have hpost : ∀ w ∈ post, w.isNaN = false := fun w hw =>
      Bool.eq_false_iff.mpr fun hwNaN => hnone ⟨w, hw, hwNaN⟩
    obtain ⟨hvNaN, hxNaN⟩ := isNaN_of_compare? hcompare
    have hstands := (isRank_sortKey.respects hne haccepts).extremeFrom hfirst hrest hbest hsuffix
      (List.forall_mem_cons.mpr ⟨hvNaN, hpost⟩)
    have hkey : best.sortKey = (float x).sortKey := by
      rw [sortKey, hx]
      rfl
    rw [compare?_numbers (hnumeric v (hsuffix.mem List.mem_cons_self)) rfl hvNaN hxNaN,
      Option.some_inj, ← hkey, show (float x).isInt = false from rfl, Bool.and_false] at hcompare
    exact hstands hcompare

theorem extreme_isExtreme (hne : surpassing ≠ .eq)
    (haccepts : ∀ o, accepts o = (o != surpassing.swap)) {args : List Value} (hargs : args ≠ [])
    (hnumeric : ∀ v ∈ args, v.isNumeric = true) :
    IsExtreme surpassing args (extreme (isOrdered accepts) args) := by
  obtain ⟨first, rest, rfl⟩ := List.exists_cons_of_ne_nil hargs
  obtain ⟨hfirst, hrest⟩ := List.forall_mem_cons.mp hnumeric
  obtain ⟨best, hmem, hbest⟩ := extremeFrom_mem (isOrdered accepts) first hrest
  rw [extreme, if_pos hfirst, hbest]
  by_cases hints : ∀ v ∈ first :: rest, v.isInt = true
  · simp only [if_pos (List.all_eq_true.mpr hints)]
    exact isExtreme_of_isInt hne haccepts hints hmem hbest
  · obtain ⟨x, hx⟩ := exists_toFloat? (hnumeric best hmem)
    simp only [if_neg (mt List.all_eq_true.mp hints), hx]
    exact isExtreme_of_isNumeric hne haccepts hnumeric hints hmem hbest hx

/-- The least and the greatest of integers and doubles, in any mixture and any order. Where there is
no NaN among them, none is less than the least or greater than the greatest. -/
theorem minimum_maximum_isExtreme {args : List Value} (hargs : args ≠ [])
    (hnumeric : ∀ v ∈ args, v.isNumeric = true) :
    IsExtreme .lt args (minimum args) ∧ IsExtreme .gt args (maximum args) ∧
      ((∀ v ∈ args, v.isNaN = false) → ∀ v ∈ args,
        v.compare? (minimum args) ≠ some .lt ∧ v.compare? (maximum args) ≠ some .gt) := by
  have hleast (o : Ordering) : o.isLE = (o != Ordering.lt.swap) := by
    cases o <;> rfl
  have hgreatest (o : Ordering) : o.isGE = (o != Ordering.gt.swap) := by
    cases o <;> rfl
  have hminimum := extreme_isExtreme Ordering.noConfusion hleast hargs hnumeric
  have hmaximum := extreme_isExtreme Ordering.noConfusion hgreatest hargs hnumeric
  exact ⟨hminimum, hmaximum, fun hNaN _ hv =>
    ⟨hminimum.compare?_ne hNaN hv, hmaximum.compare?_ne hNaN hv⟩⟩

/-- Of two integers and a smaller double the extremes are doubles. -/
theorem mixed_isExtreme :
    IsExtreme .lt [int 3, float 1.5, int 2] (float 1.5) ∧
      IsExtreme .gt [int 3, float 1.5, int 2] (float 3) ∧
      ∀ v ∈ [int 3, float 1.5, int 2],
        v.compare? (float 1.5) ≠ some .lt ∧ v.compare? (float 3) ≠ some .gt := by
  have hnumeric : ∀ v ∈ [int 3, float 1.5, int 2], v.isNumeric = true :=
    List.forall_mem_cons.mpr ⟨rfl, List.forall_mem_cons.mpr ⟨rfl,
      List.forall_mem_singleton.mpr rfl⟩⟩
  have hNaN : ∀ v ∈ [int 3, float 1.5, int 2], v.isNaN = false :=
    List.forall_mem_cons.mpr ⟨rfl, List.forall_mem_cons.mpr ⟨rfl,
      List.forall_mem_singleton.mpr rfl⟩⟩
  obtain ⟨hleast, hgreatest, hnone⟩ := minimum_maximum_isExtreme (List.cons_ne_nil _ _) hnumeric
  exact ⟨hleast, hgreatest, hnone hNaN⟩

/-- The number before a NaN is forgotten, although it is the least or the greatest one. -/
theorem forgotten_before_nan :
    minimum [int 1, float (0 / 0), int 5] = float 5 ∧
      (int 1).compare? (minimum [int 1, float (0 / 0), int 5]) = some .lt ∧
      maximum [int 5, float (0 / 0), int 1] = float 1 ∧
      (int 5).compare? (maximum [int 5, float (0 / 0), int 1]) = some .gt :=
  ⟨rfl, rfl, rfl, rfl⟩

end Value

end Formulary
