import Formulary.Operator.Relation
import Formulary.Proofs.Doubles

/-! # The six comparisons

Equality and order are worked out apart from each other: every two values are equal or not, but only
numbers and strings have an order, and a NaN has none. Where two values have one, equality is one of
its three answers, and to turn the values around turns the order around.
-/

namespace Formulary

theorem Handle.same_comm (a b : Handle) : a.same b = b.same a := by
  cases a <;> cases b <;> simp only [Handle.same, Bool.beq_comm]

/-- The numbers in the other order. -/
def NumericPair.swap : NumericPair → NumericPair
  | ints i j => ints j i
  | floats x y => floats y x

namespace Value

/-! ## Doubles -/

/-- The order of two doubles is that of their parts. -/
theorem compareFloats?_eq_compare (x y : Float) :
    compareFloats? x y = x.toModel.unpack.compare y.toModel.unpack := by
  by_cases hNaN : x.isNaN = true ∨ y.isNaN = true
  · rw [compareFloats?_of_isNaN hNaN, unpack_compare_of_isNaN hNaN]
  · obtain ⟨hx, hy⟩ : x.isNaN = false ∧ y.isNaN = false := by simpa using hNaN
    rw [compareFloats?_eq_sortKey hx hy,
      compare_eq_sortKeyOf (ne_notANumber hx) (ne_notANumber hy)]
    rfl

theorem compareFloats?_swap (x y : Float) :
    compareFloats? y x = (compareFloats? x y).map Ordering.swap := by
  by_cases hNaN : x.isNaN = true ∨ y.isNaN = true
  · rw [compareFloats?_of_isNaN hNaN, compareFloats?_of_isNaN hNaN.symm, Option.map_none]
  · obtain ⟨hx, hy⟩ : x.isNaN = false ∧ y.isNaN = false := by simpa using hNaN
    rw [compareFloats?_eq_sortKey hx hy, compareFloats?_eq_sortKey hy hx, Option.map_some,
      ← cmp_eq_compare, ← cmp_eq_compare, cmp_swap]

theorem beq_eq_compareFloats? (x y : Float) : (x == y) = (compareFloats? x y == some .eq) := by
  rw [Bool.eq_iff_iff, beq_iff_compare, ← compareFloats?_eq_compare, beq_iff_eq]

theorem float_beq_comm (x y : Float) : (x == y) = (y == x) := by
  rw [beq_eq_compareFloats? x, beq_eq_compareFloats? y, compareFloats?_swap x y]
  cases compareFloats? x y with
  | none => rfl
  | some o => cases o <;> rfl

/-! ## Two values turned around -/

theorem same_comm (v w : Value) : v.same w = w.same v := by
  cases v <;> cases w <;>
    simp only [same, Bool.beq_comm, float_beq_comm, Handle.same_comm]

theorem numericPair?_swap (v w : Value) :
    numericPair? w v = (numericPair? v w).map NumericPair.swap := by
  cases v <;> cases w <;> rfl

theorem looseEq_comm (v w : Value) : v.looseEq w = w.looseEq v := by
  rw [looseEq, looseEq, numericPair?_swap v w]
  cases numericPair? v w with
  | none => exact same_comm v w
  | some pair =>
      cases pair with
      | ints i j => exact Bool.beq_comm
      | floats x y => exact float_beq_comm x y

theorem compare?_swap (v w : Value) : w.compare? v = (v.compare? w).map Ordering.swap := by
  unfold compare?
  rw [numericPair?_swap v w]
  cases numericPair? v w with
  | none =>
      cases v with
      | string s =>
          cases w with
          | string t => exact congrArg some (Std.OrientedOrd.eq_swap : compare t s = _)
          | _ => rfl
      | _ => cases w <;> rfl
  | some pair =>
      cases pair with
      | ints i j => exact congrArg some (Std.OrientedOrd.eq_swap : compare j.toInt i.toInt = _)
      | floats x y => exact compareFloats?_swap x y

/-! ## Equality and order -/

/-- Values that have an order are equal if it says so. -/
theorem looseEq_of_compare? {v w : Value} {o : Ordering} (h : v.compare? w = some o) :
    v.looseEq w = (o == .eq) := by
  unfold compare? at h
  unfold looseEq
  cases hpair : numericPair? v w with
  | none =>
      rw [hpair] at h
      cases v with
      | string s =>
          cases w with
          | string t =>
              obtain rfl : compare s t = o := Option.some_inj.mp h
              exact Std.compare_beq_eq_beq.symm
          | _ => cases h
      | _ => cases w <;> cases h
  | some pair =>
      rw [hpair] at h
      cases pair with
      | ints i j =>
          obtain rfl : compare i.toInt j.toInt = o := Option.some_inj.mp h
          rw [Std.compare_beq_eq_beq, Bool.eq_iff_iff, beq_iff_eq, beq_iff_eq, Int64.toInt_inj]
      | floats x y =>
          have hfloats : compareFloats? x y = some o := h
          show (x == y) = (o == .eq)
          rw [beq_eq_compareFloats?, hfloats]
          rfl

/-! ## Asking for an order -/

variable {accepts : Ordering → Bool} {v w : Value}

theorem ordered_of_compare? {o : Ordering} (h : v.compare? w = some o) :
    ordered accepts v w = bool (accepts o) := by
  simp only [ordered, h]

theorem ordered_of_compare?_eq_none (h : v.compare? w = none) :
    ordered accepts v w = unknown := by
  simp only [ordered, h]

/-- To ask for the order of two values turned around is to ask for the opposite order. -/
theorem ordered_swap (accepts : Ordering → Bool) (v w : Value) :
    ordered accepts w v = ordered (fun o => accepts o.swap) v w := by
  simp only [ordered, compare?_swap v w]
  cases v.compare? w <;> rfl

end Value

namespace Operator

open Value

/-- The operators that ask for an order. -/
def orderings : List Operator := [less, lessOrEqual, greater, greaterOrEqual]

/-- How the answers of the six comparisons of two values fit together. -/
structure Consistent (v w : Value) : Prop where
  /-- Equality always answers, and inequality answers the opposite. -/
  negated : ∃ equal : Bool, equality.evaluateBinary v w = bool equal ∧
    inequality.evaluateBinary v w = bool (!equal)
  symmetric : equality.evaluateBinary v w = equality.evaluateBinary w v
  mirrored : less.evaluateBinary v w = greater.evaluateBinary w v
  /-- Either no ordering answers, whichever value comes first, or all of them do. Then just one of
  less, equal and greater holds, and the other two orderings put two of these together. -/
  ordered :
    (∀ op ∈ orderings, op.evaluateBinary v w = unknown ∧ op.evaluateBinary w v = unknown) ∨
      (∃ lt eq gt : Bool, [lt, eq, gt].count true = 1 ∧
        less.evaluateBinary v w = bool lt ∧ equality.evaluateBinary v w = bool eq ∧
        greater.evaluateBinary v w = bool gt ∧
        lessOrEqual.evaluateBinary v w = bool (lt || eq) ∧
        greaterOrEqual.evaluateBinary v w = bool (gt || eq)) ∧
      ∀ op ∈ orderings, ∃ b, op.evaluateBinary w v = bool b

theorem exists_accepts {op : Operator} (h : op ∈ orderings) :
    ∃ accepts, op.evaluateBinary = Value.ordered accepts := by
  simp only [orderings, List.mem_cons, List.not_mem_nil, or_false] at h
  rcases h with rfl | rfl | rfl | rfl
  · exact ⟨Ordering.isLT, rfl⟩
  · exact ⟨Ordering.isLE, rfl⟩
  · exact ⟨Ordering.isGT, rfl⟩
  · exact ⟨Ordering.isGE, rfl⟩

/-- The six comparisons of any two values fit together. -/
theorem comparisons_consistent (v w : Value) : Consistent v w where
  negated := ⟨v.looseEq w, rfl, rfl⟩
  symmetric := congrArg bool (looseEq_comm v w)
  mirrored := by
    show Value.ordered Ordering.isLT v w = Value.ordered Ordering.isGT w v
    rw [ordered_swap Ordering.isGT v w]
    congr 1
    funext o
    cases o <;> rfl
  ordered := by
    cases hcompare : v.compare? w with
    | none =>
        refine Or.inl fun op hop => ?_
        obtain ⟨accepts, haccepts⟩ := exists_accepts hop
        rw [haccepts, ordered_swap accepts v w]
        exact ⟨ordered_of_compare?_eq_none hcompare, ordered_of_compare?_eq_none hcompare⟩
    | some o =>
        refine Or.inr ⟨⟨o.isLT, o == .eq, o.isGT, ?_, ordered_of_compare? hcompare,
          congrArg bool (looseEq_of_compare? hcompare), ordered_of_compare? hcompare, ?_, ?_⟩,
          fun op hop => ?_⟩
        · cases o <;> rfl
        · refine (ordered_of_compare? hcompare).trans ?_
          cases o <;> rfl
        · refine (ordered_of_compare? hcompare).trans ?_
          cases o <;> rfl
        · obtain ⟨accepts, haccepts⟩ := exists_accepts hop
          rw [haccepts, ordered_swap accepts v w]
          exact ⟨_, ordered_of_compare? hcompare⟩

-- Past 53 bits an integer equals the double it is promoted to.
example : equality.evaluateBinary (int 9007199254740993) (float 9007199254740992) = bool true := rfl

end Operator

end Formulary
