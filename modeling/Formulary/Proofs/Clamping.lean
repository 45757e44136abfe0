import Formulary.Proofs.Comparisons
import Formulary.Proofs.Extremes

/-! # Numbers between bounds

The bounds are compared before anything is brought between them, so that clamping never breaks off.
They are compared exactly if all three numbers are integers, and as doubles otherwise. Clamping then
agrees with the least and the greatest number, although these bring only two numbers at a time to a
common type. Two integers out of order may be promoted to one double; next to a double they pass
for bounds in order.
-/

namespace Formulary

namespace Value

/-! ## Bounded numbers -/

/-- A monotone rank of integers is bounded as the integers are. -/
theorem rank_boundInt {α : Type} [LinearOrder α] (rank : Int64 → α)
    (hrank : ∀ i j : Int64, i.toInt ≤ j.toInt → rank i ≤ rank j) (x : Int64) {low high : Int64}
    (h : low.toInt ≤ high.toInt) :
    rank (boundInt x low high) = max (rank low) (min (rank x) (rank high)) := by
  rw [boundInt]
  by_cases hlow : x.toInt < low.toInt
  · rw [if_pos (Int64.lt_iff_toInt_lt.mpr hlow),
      max_eq_left ((min_le_left _ _).trans (hrank x low hlow.le))]
  rw [if_neg (mt Int64.lt_iff_toInt_lt.mp hlow)]
  by_cases hhigh : high.toInt < x.toInt
  · rw [if_pos (Int64.lt_iff_toInt_lt.mpr hhigh), min_eq_right (hrank high x hhigh.le),
      max_eq_right (hrank low high h)]
  · rw [if_neg (mt Int64.lt_iff_toInt_lt.mp hhigh), min_eq_left (hrank x high (not_lt.mp hhigh)),
      max_eq_right (hrank low x (not_lt.mp hlow))]

/-- A double that is a number stays one between bounds, and its key is bounded as it is. -/
theorem sortKey_boundFloat {x low high : Float} (hx : x.isNaN = false) (hlow : low.isNaN = false)
    (hhigh : high.isNaN = false) (h : Formulary.sortKey low ≤ Formulary.sortKey high) :
    (boundFloat x low high).isNaN = false ∧
      Formulary.sortKey (boundFloat x low high) =
        max (Formulary.sortKey low) (min (Formulary.sortKey x) (Formulary.sortKey high)) := by
  simp only [boundFloat]
  by_cases hxlow : x < low
  · have hkey := (lt_iff_sortKey hx hlow).mp hxlow
    -- What was raised to the lower bound is not above the upper one.
    rw [if_pos hxlow, if_neg (mt (lt_iff_sortKey hhigh hlow).mp h.not_gt),
      max_eq_left ((min_le_left _ _).trans hkey.le)]
    exact ⟨hlow, rfl⟩
  have hkey := not_lt.mp (mt (lt_iff_sortKey hx hlow).mpr hxlow)
  rw [if_neg hxlow]
  by_cases hhighx : high < x
  · rw [if_pos hhighx, min_eq_right ((lt_iff_sortKey hhigh hx).mp hhighx).le, max_eq_right h]
    exact ⟨hhigh, rfl⟩
  · have hkey' := not_lt.mp (mt (lt_iff_sortKey hhigh hx).mpr hhighx)
    rw [if_neg hhighx, min_eq_left hkey', max_eq_right hkey]
    exact ⟨hx, rfl⟩

/-! ## Numbers by type, exact value and key -/

/-- A number of this type, with this exact value if it is an integer, and with this key. Integers
that are promoted to one double have one key, so that the exact value is needed as well. -/
structure IsNumber (integral : Bool) (exact : ℤ) (key : SortKey) (v : Value) : Prop where
  isNumeric : v.isNumeric = true
  isNaN : v.isNaN = false
  isInt_eq : v.isInt = integral
  toInt_eq : integral = true → v.toInt = exact
  sortKey_eq : v.sortKey = key

namespace IsNumber

variable {b c : Bool} {m n : ℤ} {k l : SortKey} {v w : Value}

theorem self (hv : v.isNumeric = true) (hNaN : v.isNaN = false) :
    IsNumber v.isInt v.toInt v.sortKey v := ⟨hv, hNaN, rfl, fun _ => rfl, rfl⟩

theorem int {i : Int64} (hm : i.toInt = m) (hk : Formulary.sortKey (promote i) = k) :
    IsNumber true m k (int i) := ⟨rfl, rfl, rfl, fun _ => hm, hk⟩

theorem float {x : Float} (hx : x.isNaN = false) (hk : Formulary.sortKey x = k) :
    IsNumber false m k (float x) := ⟨rfl, hx, rfl, Bool.noConfusion, hk⟩

/-- Two numbers of one type are equal if they have the same exact value and key. -/
theorem agree (hv : IsNumber b m k v) (hw : IsNumber b m k w) :
    v.typeName = w.typeName ∧ v.looseEq w = true := by
  have hints := hv.isInt_eq.trans hw.isInt_eq.symm
  cases v with
  | int i =>
      cases w with
      | int j =>
          have hm := (hv.toInt_eq hv.isInt_eq.symm).trans (hw.toInt_eq hw.isInt_eq.symm).symm
          exact ⟨rfl, beq_iff_eq.mpr (Int64.toInt_inj.mp hm)⟩
      | float y => exact absurd hints.symm Bool.false_ne_true
      | _ => exact absurd hw.isNumeric Bool.false_ne_true
  | float x =>
      cases w with
      | int j => exact absurd hints Bool.false_ne_true
      | float y =>
          have hk := hv.sortKey_eq.trans hw.sortKey_eq.symm
          exact ⟨rfl, (beq_iff_sortKey hv.isNaN hw.isNaN).mpr hk⟩
      | _ => exact absurd hw.isNumeric Bool.false_ne_true
  | _ => exact absurd hv.isNumeric Bool.false_ne_true

end IsNumber

/-! ## The extremes of two numbers -/

section Pair

variable {α : Type} [LinearOrder α] {P : Value → Prop} {rank : Value → α} {v w : Value}

/-- The lesser of two numbers has the lesser rank. -/
theorem IsRank.rank_minimum (hrank : IsRank P rank) (hv : P v) (hw : P w)
    (hvNaN : v.isNaN = false) (hwNaN : w.isNaN = false) :
    rank (preferred (isOrdered Ordering.isLE) v w) = min (rank v) (rank w) := by
  have haccepts (o : Ordering) : o.isLE = (o != Ordering.lt.swap) := by
    cases o <;> rfl
  obtain ⟨-, hw', hv'⟩ := (hrank.respects Ordering.noConfusion haccepts).preferred hv hw hwNaN
  rcases preferred_eq_or (isOrdered Ordering.isLE) v w with heq | heq
  · rw [heq] at hw' ⊢
    exact (min_eq_left (compare_ge_iff_ge.mp hw')).symm
  · rw [heq] at hv' ⊢
    exact (min_eq_right (compare_ge_iff_ge.mp (hv' hvNaN))).symm

/-- The greater of two numbers has the greater rank. -/
theorem IsRank.rank_maximum (hrank : IsRank P rank) (hv : P v) (hw : P w)
    (hvNaN : v.isNaN = false) (hwNaN : w.isNaN = false) :
    rank (preferred (isOrdered Ordering.isGE) v w) = max (rank v) (rank w) := by
  have haccepts (o : Ordering) : o.isGE = (o != Ordering.gt.swap) := by
    cases o <;> rfl
  obtain ⟨-, hw', hv'⟩ := (hrank.respects Ordering.noConfusion haccepts).preferred hv hw hwNaN
  rcases preferred_eq_or (isOrdered Ordering.isGE) v w with heq | heq
  · rw [heq] at hw' ⊢
    exact (max_eq_left (compare_le_iff_le.mp hw')).symm
  · rw [heq] at hv' ⊢
    exact (max_eq_right (compare_le_iff_le.mp (hv' hvNaN))).symm

theorem extreme_pair_of_isInt (keep : Value → Value → Bool) (hv : v.isInt = true)
    (hw : w.isInt = true) : extreme keep [v, w] = preferred keep v w := by
  simp [extreme, extremeFrom, preferred, isNumeric_of_isInt, hv, hw]

theorem extreme_pair_of_not_isInt (keep : Value → Value → Bool) (hv : v.isNumeric = true)
    (hw : w.isNumeric = true) (hints : (v.isInt && w.isInt) = false) {x : Float}
    (hx : (preferred keep v w).toFloat? = some x) : extreme keep [v, w] = float x := by
  rw [preferred] at hx
  simp [extreme, extremeFrom, hv, hw, hints, hx]

end Pair

theorem isNaN_of_toFloat? {v : Value} {x : Float} (hx : v.toFloat? = some x) :
    x.isNaN = v.isNaN := by
  cases v with
  | int i =>
      obtain rfl : promote i = x := Option.some_inj.mp hx
      exact promote_isNaN i
  | float y =>
      obtain rfl : y = x := Option.some_inj.mp hx
      rfl
  | _ => exact absurd hx.symm (Option.some_ne_none x)

theorem sortKey_of_toFloat? {v : Value} {x : Float} (hx : v.toFloat? = some x) :
    v.sortKey = Formulary.sortKey x := by
  rw [sortKey, hx]

namespace IsNumber

variable {b c d : Bool} {m n p : ℤ} {k l q : SortKey} {v w low high : Value}

/-- An extreme of two numbers is an integer if both are. -/
theorem extreme {keep : Value → Value → Bool} (hv : IsNumber b m k v) (hw : IsNumber c n l w)
    (hp : v.isInt = true → w.isInt = true → (preferred keep v w).toInt = p)
    (hq : (preferred keep v w).sortKey = q) :
    IsNumber (b && c) p q (Value.extreme keep [v, w]) := by
  have hpreferred (Q : Value → Prop) (hv : Q v) (hw : Q w) : Q (preferred keep v w) := by
    rcases preferred_eq_or keep v w with heq | heq <;> rwa [heq]
  have hnumeric := hpreferred (fun u => u.isNumeric = true) hv.isNumeric hw.isNumeric
  have hNaN := hpreferred (fun u => u.isNaN = false) hv.isNaN hw.isNaN
  rw [← hv.isInt_eq, ← hw.isInt_eq]
  by_cases hints : (v.isInt && w.isInt) = true
  · obtain ⟨hvInt, hwInt⟩ := Bool.and_eq_true_iff.mp hints
    rw [extreme_pair_of_isInt keep hvInt hwInt, hints]
    have hint := hpreferred (fun u => u.isInt = true) hvInt hwInt
    exact ⟨hnumeric, hNaN, hint, fun _ => hp hvInt hwInt, hq⟩
  · rw [Bool.not_eq_true] at hints
    obtain ⟨x, hx⟩ := exists_toFloat? hnumeric
    rw [extreme_pair_of_not_isInt keep hv.isNumeric hw.isNumeric hints hx, hints]
    exact float ((isNaN_of_toFloat? hx).trans hNaN) ((sortKey_of_toFloat? hx).symm.trans hq)

theorem minimum (hv : IsNumber b m k v) (hw : IsNumber c n l w) :
    IsNumber (b && c) (min m n) (min k l) (Value.minimum [v, w]) := by
  refine hv.extreme hw (fun hvInt hwInt => ?_) ?_
  · rw [isRank_toInt.rank_minimum hvInt hwInt hv.isNaN hw.isNaN,
      hv.toInt_eq (hv.isInt_eq.symm.trans hvInt), hw.toInt_eq (hw.isInt_eq.symm.trans hwInt)]
  · rw [isRank_sortKey.rank_minimum hv.isNumeric hw.isNumeric hv.isNaN hw.isNaN, hv.sortKey_eq,
      hw.sortKey_eq]

theorem maximum (hv : IsNumber b m k v) (hw : IsNumber c n l w) :
    IsNumber (b && c) (max m n) (max k l) (Value.maximum [v, w]) := by
  refine hv.extreme hw (fun hvInt hwInt => ?_) ?_
  · rw [isRank_toInt.rank_maximum hvInt hwInt hv.isNaN hw.isNaN,
      hv.toInt_eq (hv.isInt_eq.symm.trans hvInt), hw.toInt_eq (hw.isInt_eq.symm.trans hwInt)]
  · rw [isRank_sortKey.rank_maximum hv.isNumeric hw.isNumeric hv.isNaN hw.isNaN, hv.sortKey_eq,
      hw.sortKey_eq]

end IsNumber

/-! ## Bounds in order -/

section Bounds

variable {v w : Value} {x y : Float}

theorem lessOrEqual_eq_true_iff :
    Operator.lessOrEqual.evaluateBinary v w = bool true ↔ isOrdered Ordering.isLE v w = true := by
  show ordered Ordering.isLE v w = bool true ↔ _
  rw [ordered, isOrdered]
  cases v.compare? w with
  | none => exact iff_of_false Value.noConfusion Bool.false_ne_true
  | some o => simp only [bool.injEq]

/-- Two integers are in order by their exact values. -/
theorem isOrdered_int_iff (i j : Int64) :
    isOrdered Ordering.isLE (int i) (int j) = true ↔ i.toInt ≤ j.toInt := by
  show (compare i.toInt j.toInt).isLE = true ↔ _
  rw [Ordering.isLE_iff_ne_gt]
  exact compare_le_iff_le

/-- Promoted integers are in order if the integers are, or if both become one double. -/
theorem promote_le_iff (i j : Int64) :
    promote i ≤ promote j ↔ i.toInt ≤ j.toInt ∨ (promote i == promote j) = true := by
  rw [le_iff_sortKey (promote_isNaN i) (promote_isNaN j),
    beq_iff_sortKey (promote_isNaN i) (promote_isNaN j)]
  constructor
  · intro hle
    refine or_iff_not_imp_left.mpr fun hij => ?_
    exact hle.antisymm (sortKey_promote_mono (not_le.mp hij).le)
  · rintro (hij | heq)
    · exact sortKey_promote_mono hij
    · exact heq.le

/-- Next to a double any number is compared as one. -/
theorem compare?_of_toFloat? (hints : ¬(v.isInt = true ∧ w.isInt = true)) (hx : v.toFloat? = some x)
    (hy : w.toFloat? = some y) : v.compare? w = compareFloats? x y := by
  cases v with
  | int i =>
      obtain rfl : promote i = x := Option.some_inj.mp hx
      cases w with
      | int j => exact absurd ⟨rfl, rfl⟩ hints
      | float z =>
          obtain rfl : z = y := Option.some_inj.mp hy
          rfl
      | _ => exact absurd hy.symm (Option.some_ne_none y)
  | float z =>
      obtain rfl : z = x := Option.some_inj.mp hx
      cases w with
      | int j =>
          obtain rfl : promote j = y := Option.some_inj.mp hy
          rfl
      | float z =>
          obtain rfl : z = y := Option.some_inj.mp hy
          rfl
      | _ => exact absurd hy.symm (Option.some_ne_none y)
  | _ => exact absurd hx.symm (Option.some_ne_none x)

theorem isOrdered_iff_le (hints : ¬(v.isInt = true ∧ w.isInt = true)) (hx : v.toFloat? = some x)
    (hy : w.toFloat? = some y) : isOrdered Ordering.isLE v w = true ↔ x ≤ y := by
  rw [isOrdered, compare?_of_toFloat? hints hx hy, compareFloats?_eq_compare, le_iff_compare]
  cases x.toModel.unpack.compare y.toModel.unpack <;> rfl

/-- Two integers out of order that are promoted to one double. -/
def Merged : Value → Value → Prop
  | int i, int j => j.toInt < i.toInt ∧ (promote i == promote j) = true
  | _, _ => False

theorem Merged.isInt (h : Merged v w) : v.isInt = true ∧ w.isInt = true := by
  cases v with
  | int i =>
      cases w with
      | int j => exact ⟨rfl, rfl⟩
      | _ => exact h.elim
  | _ => exact h.elim

theorem exists_int (h : v.isInt = true) : ∃ i, v = int i := by
  cases v with
  | int i => exact ⟨i, rfl⟩
  | _ => exact absurd h Bool.false_ne_true

/-- As doubles, bounds are in order if they are as numbers, and if both become one double. -/
theorem le_iff_isOrdered_or_merged (hx : v.toFloat? = some x) (hy : w.toFloat? = some y) :
    x ≤ y ↔ isOrdered Ordering.isLE v w = true ∨ Merged v w := by
  by_cases hints : v.isInt = true ∧ w.isInt = true
  · obtain ⟨i, rfl⟩ := exists_int hints.1
    obtain ⟨j, rfl⟩ := exists_int hints.2
    obtain rfl : promote i = x := Option.some_inj.mp hx
    obtain rfl : promote j = y := Option.some_inj.mp hy
    rw [promote_le_iff, isOrdered_int_iff, Merged]
    constructor
    · rintro (hle | heq)
      · exact Or.inl hle
      · exact (le_or_gt i.toInt j.toInt).imp id fun hlt => ⟨hlt, heq⟩
    · exact Or.imp id And.right
  · rw [isOrdered_iff_le hints hx hy]
    exact (or_iff_left fun hmerged => hints hmerged.isInt).symm

end Bounds

/-! ## Clamping -/

section Clamp

variable {φ : Type} {v low high : Value}

theorem clamp_ints (x low high : Int64) :
    (clamp [int x, int low, int high] : Routine φ EvalError Value) =
      .done (if low.toInt ≤ high.toInt then int (boundInt x low high) else unknown) := by
  rw [clamp]
  by_cases h : low ≤ high
  · rw [if_pos h, if_pos (Int64.le_iff_toInt_le.mp h), clampInts_of_le x h]
    rfl
  · rw [if_neg h, if_neg (mt Int64.le_iff_toInt_le.mpr h)]

theorem clamp_of_not_isInt
    (hints : ¬(v.isInt = true ∧ low.isInt = true ∧ high.isInt = true)) :
    (clamp [v, low, high] : Routine φ EvalError Value) = clampPromoted v low high := by
  cases v with
  | int x =>
      cases low with
      | int y =>
          cases high with
          | int z => exact absurd ⟨rfl, rfl, rfl⟩ hints
          | _ => rfl
      | _ => rfl
  | _ => rfl

theorem clampPromoted_of_toFloat? {x y z : Float} (hx : v.toFloat? = some x)
    (hy : low.toFloat? = some y) (hz : high.toFloat? = some z) :
    (clampPromoted v low high : Routine φ EvalError Value) =
      .done (if y ≤ z then float (boundFloat x y z) else unknown) := by
  simp only [clampPromoted, hx, hy, hz]
  by_cases h : y ≤ z
  · rw [if_pos h, if_pos h, clampFloats_of_le x h]
    rfl
  · rw [if_neg h, if_neg h]

theorem isNumeric_of_toFloat? {x : Float} (hx : v.toFloat? = some x) : v.isNumeric = true := by
  cases v with
  | int | float => rfl
  | _ => exact absurd hx.symm (Option.some_ne_none x)

theorem clampPromoted_of_not_isNumeric
    (h : ¬(v.isNumeric = true ∧ low.isNumeric = true ∧ high.isNumeric = true)) :
    (clampPromoted v low high : Routine φ EvalError Value) = .done unknown := by
  unfold clampPromoted
  split
  next hx hy hz =>
    exact absurd ⟨isNumeric_of_toFloat? hx, isNumeric_of_toFloat? hy, isNumeric_of_toFloat? hz⟩ h
  next => rfl

theorem clamp_of_not_isNumeric
    (h : ¬(v.isNumeric = true ∧ low.isNumeric = true ∧ high.isNumeric = true)) :
    (clamp [v, low, high] : Routine φ EvalError Value) = .done unknown := by
  rw [clamp_of_not_isInt, clampPromoted_of_not_isNumeric h]
  exact fun hints => h ⟨isNumeric_of_isInt hints.1, isNumeric_of_isInt hints.2.1,
    isNumeric_of_isInt hints.2.2⟩

/-- Three integers are clamped exactly, and other numbers as doubles. -/
theorem clamp_cases (hv : v.isNumeric = true) (hlow : low.isNumeric = true)
    (hhigh : high.isNumeric = true) :
    (∃ x y z : Int64, v = int x ∧ low = int y ∧ high = int z ∧
      (clamp [v, low, high] : Routine φ EvalError Value) =
        .done (if y.toInt ≤ z.toInt then int (boundInt x y z) else unknown)) ∨
    ¬(v.isInt = true ∧ low.isInt = true ∧ high.isInt = true) ∧
      ∃ x y z : Float, v.toFloat? = some x ∧ low.toFloat? = some y ∧ high.toFloat? = some z ∧
        (clamp [v, low, high] : Routine φ EvalError Value) =
          .done (if y ≤ z then float (boundFloat x y z) else unknown) := by
  by_cases hints : v.isInt = true ∧ low.isInt = true ∧ high.isInt = true
  · obtain ⟨x, rfl⟩ := exists_int hints.1
    obtain ⟨y, rfl⟩ := exists_int hints.2.1
    obtain ⟨z, rfl⟩ := exists_int hints.2.2
    exact Or.inl ⟨x, y, z, rfl, rfl, rfl, clamp_ints x y z⟩
  · obtain ⟨x, hx⟩ := exists_toFloat? hv
    obtain ⟨y, hy⟩ := exists_toFloat? hlow
    obtain ⟨z, hz⟩ := exists_toFloat? hhigh
    refine Or.inr ⟨hints, x, y, z, hx, hy, hz, ?_⟩
    rw [clamp_of_not_isInt hints, clampPromoted_of_toFloat? hx hy hz]

/-- Clamping never breaks off. It answers `unknown` for what is not a number and for bounds out of
order, unless these are integers that one double stands for and the number is a double. -/
theorem clamp_rejects_unordered (v low high : Value) :
    ∃ answer : Value, clamp [v, low, high] = (.done answer : Routine φ EvalError Value) ∧
      (answer = unknown ↔
        ¬(v.isNumeric = true ∧ low.isNumeric = true ∧ high.isNumeric = true) ∨
        Operator.lessOrEqual.evaluateBinary low high ≠ bool true ∧
          ¬(v.isInt = false ∧ Merged low high)) := by
  rw [Ne, lessOrEqual_eq_true_iff, ← not_or]
  by_cases hnumeric : v.isNumeric = true ∧ low.isNumeric = true ∧ high.isNumeric = true
  · rw [or_iff_right (not_not_intro hnumeric)]
    obtain ⟨hv, hlow, hhigh⟩ := hnumeric
    rcases @clamp_cases φ v low high hv hlow hhigh with
      ⟨x, y, z, rfl, rfl, rfl, hclamp⟩ | ⟨hints, x, y, z, -, hy, hz, hclamp⟩
    · refine ⟨_, hclamp, (Ne.ite_eq_right_iff Value.noConfusion).trans (not_congr ?_)⟩
      -- Next to an integer nothing is merged.
      rw [isOrdered_int_iff]
      exact (or_iff_left fun h => Bool.noConfusion h.1).symm
    · refine ⟨_, hclamp, (Ne.ite_eq_right_iff Value.noConfusion).trans (not_congr ?_)⟩
      rw [le_iff_isOrdered_or_merged hy hz]
      refine or_congr_right ⟨fun hmerged => ⟨?_, hmerged⟩, And.right⟩
      exact Bool.eq_false_iff.mpr fun hint => hints ⟨hint, hmerged.isInt⟩
  · exact ⟨unknown, clamp_of_not_isNumeric hnumeric, iff_of_true rfl (Or.inl hnumeric)⟩

/-- Next to a double, bounds out of order pass for bounds in order if they are merged. -/
theorem merged_bounds_accepted :
    Operator.lessOrEqual.evaluateBinary (int 9007199254740993) (int 9007199254740992) =
        bool false ∧
      clamp [float 0.5, int 9007199254740993, int 9007199254740992] =
        (.done (float 9007199254740992) : Routine Formula EvalError Value) ∧
      clamp [int 0, int 9007199254740993, int 9007199254740992] =
        (.done unknown : Routine Formula EvalError Value) :=
  ⟨rfl, rfl, rfl⟩

/-- Between bounds in order, clamping makes a number of the common type. -/
theorem IsNumber.clamp {b c d : Bool} {m n p : ℤ} {k l q : SortKey} (hv : IsNumber b m k v)
    (hlow : IsNumber c n l low) (hhigh : IsNumber d p q high)
    (h : isOrdered Ordering.isLE low high = true) :
    ∃ answer : Value, Value.clamp [v, low, high] = (.done answer : Routine φ EvalError Value) ∧
      IsNumber (c && (b && d)) (max n (min m p)) (max l (min k q)) answer := by
  rcases @clamp_cases φ v low high hv.isNumeric hlow.isNumeric hhigh.isNumeric with
    ⟨x, y, z, rfl, rfl, rfl, hclamp⟩ | ⟨hints, x, y, z, hx, hy, hz, hclamp⟩
  · obtain rfl : true = b := hv.isInt_eq
    obtain rfl : true = c := hlow.isInt_eq
    obtain rfl : true = d := hhigh.isInt_eq
    have hle := (isOrdered_int_iff y z).mp h
    rw [hclamp, if_pos hle]
    refine ⟨_, rfl, .int ?_ ?_⟩
    · rw [rank_boundInt Int64.toInt (fun _ _ => id) x hle, ← hv.toInt_eq rfl, ← hlow.toInt_eq rfl,
        ← hhigh.toInt_eq rfl]
      rfl
    · rw [rank_boundInt (fun i => Formulary.sortKey (promote i)) (fun _ _ => sortKey_promote_mono) x
        hle, ← hv.sortKey_eq, ← hlow.sortKey_eq, ← hhigh.sortKey_eq]
      rfl
  · have hxNaN := (isNaN_of_toFloat? hx).trans hv.isNaN
    have hyNaN := (isNaN_of_toFloat? hy).trans hlow.isNaN
    have hzNaN := (isNaN_of_toFloat? hz).trans hhigh.isNaN
    have hle := (le_iff_isOrdered_or_merged hy hz).mpr (Or.inl h)
    obtain ⟨hNaN, hkey⟩ := sortKey_boundFloat hxNaN hyNaN hzNaN
      ((le_iff_sortKey hyNaN hzNaN).mp hle)
    have hintegral : (c && (b && d)) = false := by
      rw [← hv.isInt_eq, ← hlow.isInt_eq, ← hhigh.isInt_eq]
      grind
    rw [hclamp, if_pos hle, hintegral]
    refine ⟨_, rfl, .float hNaN ?_⟩
    rw [hkey, ← sortKey_of_toFloat? hx, ← sortKey_of_toFloat? hy, ← sortKey_of_toFloat? hz,
      hv.sortKey_eq, hlow.sortKey_eq, hhigh.sortKey_eq]

/-- Between bounds in order, clamping is to take the lesser of a number and the upper bound, and the
greater of that and the lower bound. -/
theorem clamp_agrees_with_extremes (hv : v.isNumeric = true) (hlow : low.isNumeric = true)
    (hhigh : high.isNumeric = true) (hNaN : v.isNaN = false)
    (hbounds : Operator.lessOrEqual.evaluateBinary low high = bool true) :
    ∃ answer : Value, clamp [v, low, high] = (.done answer : Routine φ EvalError Value) ∧
      answer.typeName = (maximum [low, minimum [v, high]]).typeName ∧
      Operator.equality.evaluateBinary answer (maximum [low, minimum [v, high]]) = bool true := by
  have hordered := lessOrEqual_eq_true_iff.mp hbounds
  obtain ⟨o, hcompare, -⟩ := compare?_of_isOrdered hordered
  obtain ⟨hlowNaN, hhighNaN⟩ := isNaN_of_compare? hcompare
  have hv := IsNumber.self hv hNaN
  have hlow := IsNumber.self hlow hlowNaN
  have hhigh := IsNumber.self hhigh hhighNaN
  obtain ⟨answer, hclamp, hanswer⟩ := hv.clamp hlow hhigh hordered
  obtain ⟨htype, hequal⟩ := hanswer.agree (hlow.maximum (hv.minimum hhigh))
  exact ⟨answer, hclamp, htype, congrArg bool hequal⟩

/-- An integer that is promoted to the upper bound: clamping promotes it before it is compared, the
extremes only after. -/
theorem clamp_of_promoted_agrees :
    (int 9007199254740993).isNaN = false ∧
      Operator.lessOrEqual.evaluateBinary (int 0) (float 9007199254740992) = bool true ∧
      ∃ answer : Value,
        clamp [int 9007199254740993, int 0, float 9007199254740992] =
          (.done answer : Routine Formula EvalError Value) ∧
        answer.typeName =
          (maximum [int 0, minimum [int 9007199254740993, float 9007199254740992]]).typeName ∧
        Operator.equality.evaluateBinary answer
          (maximum [int 0, minimum [int 9007199254740993, float 9007199254740992]]) = bool true :=
  ⟨rfl, rfl, clamp_agrees_with_extremes rfl rfl rfl rfl rfl⟩

end Clamp

end Value

end Formulary
