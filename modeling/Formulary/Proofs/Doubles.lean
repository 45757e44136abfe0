import Mathlib
import Formulary.Value

/-! # The order of doubles

Doubles that are numbers are compared by a key, made of their sign, their exponent and their
mantissa; a NaN is not comparable with anything. Promotion rounds an integer to the nearest double.
It may bring integers together but never changes their order.
-/

namespace Formulary

open Float.Model Float.Model.UnpackedFloat

/-- Signs are compared first, then exponents, then mantissas. -/
abbrev SortKey := ℤ ×ₗ ℤ ×ₗ ℤ

/-- The key of a double in parts. Both zeros have the same; that of a NaN means nothing. -/
def sortKeyOf : Float.Model.UnpackedFloat → SortKey
  | .infinity .negative => toLex (-2, toLex (0, 0))
  | .finite .negative mantissa exponent _ => toLex (-1, toLex (-exponent, -(mantissa : ℤ)))
  | .notANumber => toLex (0, toLex (0, 0))
  | .zero _ => toLex (0, toLex (0, 0))
  | .finite .positive mantissa exponent _ => toLex (1, toLex (exponent, (mantissa : ℤ)))
  | .infinity .positive => toLex (2, toLex (0, 0))

/-- The key of a double. -/
def sortKey (x : Float) : SortKey := sortKeyOf x.toModel.unpack

/-! ## Comparing -/

theorem compare_neg (a b : ℤ) : compare (-a) (-b) = (compare a b).swap := by
  rw [Int.compare_swap, ← cmp_eq_compare, ← cmp_eq_compare]
  exact StrictAnti.cmp_map_eq (fun _ _ h => neg_lt_neg h) a b

theorem compare_natCast (a b : ℕ) : compare (a : ℤ) (b : ℤ) = compare a b := by
  rw [← cmp_eq_compare, ← cmp_eq_compare]
  exact Nat.strictMono_cast.cmp_map_eq a b

/-- Keys of one sign are compared by exponent and mantissa. -/
theorem compare_toLex (sign e m e' m' : ℤ) :
    compare (toLex (sign, toLex (e, m)) : SortKey) (toLex (sign, toLex (e', m'))) =
      (compare e e').then (compare m m') := by
  have hsign : compare sign sign = .eq := compare_eq_iff_eq.mpr rfl
  simp only [Prod.Lex.compare_def, compareLex, compareOn, ofLex_toLex, hsign]
  rfl

/-- Doubles in parts that are numbers are ordered like their keys. -/
theorem compare_eq_sortKeyOf {a b : Float.Model.UnpackedFloat} (ha : a ≠ .notANumber)
    (hb : b ≠ .notANumber) : a.compare b = some (compare (sortKeyOf a) (sortKeyOf b)) := by
  cases a with
  | notANumber => exact absurd rfl ha
  | infinity sign =>
      cases b with
      | notANumber => exact absurd rfl hb
      | infinity sign' => cases sign <;> cases sign' <;> rfl
      | zero => cases sign <;> rfl
      | finite sign' => cases sign <;> cases sign' <;> rfl
  | zero =>
      cases b with
      | notANumber => exact absurd rfl hb
      | infinity sign' => cases sign' <;> rfl
      | zero => rfl
      | finite sign' => cases sign' <;> rfl
  | finite sign m e =>
      cases b with
      | notANumber => exact absurd rfl hb
      | infinity sign' => cases sign <;> cases sign' <;> rfl
      | zero => cases sign <;> rfl
      | finite sign' m' e' =>
          -- Only the order of two numbers of one sign depends on more than the signs.
          cases sign with
          | positive =>
              cases sign' with
              | negative => rfl
              | positive =>
                  simp only [sortKeyOf, compare_toLex, compare_natCast]
                  rfl
          | negative =>
              cases sign' with
              | positive => rfl
              | negative =>
                  simp only [sortKeyOf, compare_toLex, compare_neg, compare_natCast,
                    ← Ordering.swap_then]
                  rfl

theorem compare_notANumber_right (a : Float.Model.UnpackedFloat) :
    a.compare .notANumber = none := by
  cases a <;> rfl

variable {x y : Float}

theorem ne_notANumber (h : x.isNaN = false) : x.toModel.unpack ≠ .notANumber := fun hx =>
  Bool.false_ne_true (h.symm.trans (congrArg UnpackedFloat.isNaN hx))

theorem eq_notANumber (h : x.isNaN = true) : x.toModel.unpack = .notANumber := isNaN_iff.mp h

theorem lt_iff_compare : x < y ↔ x.toModel.unpack.compare y.toModel.unpack = some .lt := by
  show Float.lt x y = true ↔ _
  rw [Float.lt, decide_eq_true_iff]
  exact beq_iff_eq

theorem beq_iff_compare :
    (x == y) = true ↔ x.toModel.unpack.compare y.toModel.unpack = some .eq := by
  show (x.toModel.unpack.compare y.toModel.unpack == some .eq) = true ↔ _
  exact beq_iff_eq

theorem le_iff_compare :
    x ≤ y ↔ (x.toModel.unpack.compare y.toModel.unpack).any (·.isLE) = true := by
  show Float.le x y = true ↔ _
  rw [Float.le, decide_eq_true_iff]
  rfl

theorem lt_iff_sortKey (hx : x.isNaN = false) (hy : y.isNaN = false) :
    x < y ↔ sortKey x < sortKey y := by
  rw [lt_iff_compare, compare_eq_sortKeyOf (ne_notANumber hx) (ne_notANumber hy), Option.some_inj,
    compare_lt_iff_lt]
  rfl

theorem le_iff_sortKey (hx : x.isNaN = false) (hy : y.isNaN = false) :
    x ≤ y ↔ sortKey x ≤ sortKey y := by
  rw [le_iff_compare, compare_eq_sortKeyOf (ne_notANumber hx) (ne_notANumber hy), Option.any_some,
    Ordering.isLE_iff_ne_gt]
  exact compare_le_iff_le

theorem beq_iff_sortKey (hx : x.isNaN = false) (hy : y.isNaN = false) :
    (x == y) = true ↔ sortKey x = sortKey y := by
  rw [beq_iff_compare, compare_eq_sortKeyOf (ne_notANumber hx) (ne_notANumber hy), Option.some_inj,
    compare_eq_iff_eq]
  rfl

/-- Doubles that are numbers are ordered like their keys. -/
theorem Value.compareFloats?_eq_sortKey (hx : x.isNaN = false) (hy : y.isNaN = false) :
    compareFloats? x y = some (compare (sortKey x) (sortKey y)) := by
  rw [compareFloats?]
  rcases lt_trichotomy (sortKey x) (sortKey y) with h | h | h
  · rw [if_pos ((lt_iff_sortKey hx hy).mpr h), compare_lt_iff_lt.mpr h]
  · rw [if_neg (mt (lt_iff_sortKey hx hy).mp h.not_lt), if_pos ((beq_iff_sortKey hx hy).mpr h),
      compare_eq_iff_eq.mpr h]
  · rw [if_neg (mt (lt_iff_sortKey hx hy).mp h.not_gt),
      if_neg (mt (beq_iff_sortKey hx hy).mp h.ne'), if_pos ((lt_iff_sortKey hy hx).mpr h),
      compare_gt_iff_gt.mpr h]

theorem unpack_compare_of_isNaN (h : x.isNaN = true ∨ y.isNaN = true) :
    x.toModel.unpack.compare y.toModel.unpack = none := by
  rcases h with h | h
  · rw [eq_notANumber h]
    rfl
  · rw [eq_notANumber h]
    exact compare_notANumber_right _

/-- A NaN has no order with any double. -/
theorem Value.compareFloats?_of_isNaN (h : x.isNaN = true ∨ y.isNaN = true) :
    compareFloats? x y = none := by
  rw [compareFloats?, if_neg, if_neg, if_neg]
  · rw [lt_iff_compare, unpack_compare_of_isNaN h.symm]
    exact (Option.some_ne_none _).symm
  · rw [beq_iff_compare, unpack_compare_of_isNaN h]
    exact (Option.some_ne_none _).symm
  · rw [lt_iff_compare, unpack_compare_of_isNaN h]
    exact (Option.some_ne_none _).symm

/-! ## Rounding -/

/-- A mantissa with its residual bits, in quarters. -/
def quarters (em : ExtendedMantissa) : ℕ :=
  4 * em.mantissa + 2 * em.roundBit.toNat + em.stickyBit.toNat

/-- The bit that falls out is remembered in the last quarter only. -/
theorem quarters_shiftRightOne (em : ExtendedMantissa) :
    quarters em.shiftRightOne = 2 * (quarters em / 4) + min 1 (quarters em % 4) := by
  obtain ⟨m, round, sticky⟩ := em
  have hbit : (m % 2 != 0).toNat = m % 2 := by
    rcases Nat.mod_two_eq_zero_or_one m with h | h <;> rw [h] <;> rfl
  cases round <;> cases sticky <;>
    simp only [quarters, ExtendedMantissa.shiftRightOne, hbit, Bool.toNat_true, Bool.toNat_false,
      Bool.or_true, Bool.or_false] <;> omega

/-- Rounding goes to the nearest mantissa, and from the middle to the even one. -/
theorem roundedMantissa_eq (em : ExtendedMantissa) :
    em.roundedMantissa = (quarters em + 1 + quarters em / 4 % 2) / 4 := by
  obtain ⟨m, round, sticky⟩ := em
  have hwhole : quarters ⟨m, round, sticky⟩ / 4 = m := by
    have := round.toNat_le
    have := sticky.toNat_le
    simp only [quarters]
    omega
  rw [hwhole]
  cases round <;> cases sticky <;>
    simp only [quarters, ExtendedMantissa.roundedMantissa, ExtendedMantissa.accuracy,
      Accuracy.roundToNearestEven, Bool.toNat_true, Bool.toNat_false] <;> omega

theorem roundedMantissa_mono {em em' : ExtendedMantissa} (h : quarters em ≤ quarters em') :
    em.roundedMantissa ≤ em'.roundedMantissa := by
  rw [roundedMantissa_eq, roundedMantissa_eq]
  refine Nat.div_le_div_right ?_
  rcases h.eq_or_lt with h | h
  · rw [h]
  · omega

/-- A number without the given count of its last bits, rounded. -/
def withoutBits (n k : ℕ) : ℕ := ((⟨n, false, false⟩ : ExtendedMantissa) >>> k).roundedMantissa

theorem quarters_shiftRight_mono {em em' : ExtendedMantissa} (h : quarters em ≤ quarters em')
    (k : ℕ) : quarters (em >>> k) ≤ quarters (em' >>> k) := by
  induction k with
  | zero => exact h
  | succ k ih =>
      show quarters (em >>> k).shiftRightOne ≤ quarters (em' >>> k).shiftRightOne
      rw [quarters_shiftRightOne, quarters_shiftRightOne]
      omega

theorem shiftRight_mul (m k : ℕ) :
    (⟨m * 2 ^ k, false, false⟩ : ExtendedMantissa) >>> k = ⟨m, false, false⟩ := by
  induction k generalizing m with
  | zero => rw [Nat.pow_zero, Nat.mul_one]; rfl
  | succ k ih =>
      show ((⟨m * 2 ^ (k + 1), false, false⟩ : ExtendedMantissa) >>> k).shiftRightOne = _
      rw [Nat.pow_succ', ← Nat.mul_assoc, ih, ExtendedMantissa.shiftRightOne,
        Nat.mul_div_cancel m Nat.two_pos, Nat.mul_mod_left]
      rfl

theorem withoutBits_mono {a b : ℕ} (h : a ≤ b) (k : ℕ) : withoutBits a k ≤ withoutBits b k := by
  have hquarters : quarters ⟨a, false, false⟩ ≤ quarters ⟨b, false, false⟩ := by
    simp only [quarters]
    omega
  exact roundedMantissa_mono (quarters_shiftRight_mono hquarters k)

/-- Zeros are left out without rounding. -/
theorem withoutBits_mul (m k : ℕ) : withoutBits (m * 2 ^ k) k = m := by
  rw [withoutBits, shiftRight_mul]
  rfl

/-- The 53 leading bits of a number, rounded; a carry makes a 54th. -/
def leadingBits (n : ℕ) : ℕ := withoutBits (n <<< (52 - n.log2)) (n.log2 - 52)

theorem leadingBits_mono {a b : ℕ} (hab : a ≤ b) (hlog : a.log2 = b.log2) :
    leadingBits a ≤ leadingBits b := by
  rw [leadingBits, leadingBits, hlog]
  refine withoutBits_mono ?_ _
  rw [Nat.shiftLeft_eq, Nat.shiftLeft_eq]
  exact Nat.mul_le_mul_right _ hab

/-- Padded to 53 bits, a number starts with a one. -/
theorem shiftLeft_bounds {n : ℕ} (hn : n ≠ 0) :
    2 ^ 52 * 2 ^ (n.log2 - 52) ≤ n <<< (52 - n.log2) ∧
      n <<< (52 - n.log2) < 2 ^ 53 * 2 ^ (n.log2 - 52) := by
  have hlow := Nat.log2_self_le hn
  have hhigh : n < 2 ^ (n.log2 + 1) := Nat.lt_log2_self
  rw [Nat.shiftLeft_eq, ← pow_add, ← pow_add]
  constructor
  · calc
      2 ^ (52 + (n.log2 - 52)) = 2 ^ n.log2 * 2 ^ (52 - n.log2) := by
        rw [← pow_add]
        congr 1
        omega
      _ ≤ n * 2 ^ (52 - n.log2) := Nat.mul_le_mul_right _ hlow
  · calc
      n * 2 ^ (52 - n.log2) < 2 ^ (n.log2 + 1) * 2 ^ (52 - n.log2) :=
        Nat.mul_lt_mul_of_pos_right hhigh (Nat.two_pow_pos _)
      _ = 2 ^ (53 + (n.log2 - 52)) := by
        rw [← pow_add]
        congr 1
        omega

theorem log2_shiftLeft {n : ℕ} (hn : n ≠ 0) :
    (n <<< (52 - n.log2)).log2 = 52 + (n.log2 - 52) := by
  obtain ⟨hlow, hhigh⟩ := shiftLeft_bounds hn
  have hpos : 0 < n <<< (52 - n.log2) :=
    (Nat.mul_pos (Nat.two_pow_pos _) (Nat.two_pow_pos _)).trans_le hlow
  rw [Nat.log2_eq_iff hpos.ne', pow_add, Nat.add_right_comm, pow_add]
  exact ⟨hlow, hhigh⟩

theorem leadingBits_bounds {n : ℕ} (hn : n ≠ 0) :
    2 ^ 52 ≤ leadingBits n ∧ leadingBits n ≤ 2 ^ 53 := by
  obtain ⟨hlow, hhigh⟩ := shiftLeft_bounds hn
  have hlow' := withoutBits_mono hlow (n.log2 - 52)
  have hhigh' := withoutBits_mono hhigh.le (n.log2 - 52)
  rw [withoutBits_mul] at hlow' hhigh'
  exact ⟨hlow', hhigh'⟩

/-- Exponent and mantissa of the double nearest to a positive number. -/
def nearest (n : ℕ) : ℤ × ℕ :=
  if leadingBits n = 2 ^ 53 then (n.log2 - 51, 2 ^ 52) else (n.log2 - 52, leadingBits n)

theorem nearest_bounds {n : ℕ} (hn : n ≠ 0) :
    2 ^ 52 ≤ (nearest n).2 ∧ (nearest n).2 < 2 ^ 53 ∧
      (n.log2 : ℤ) - 52 ≤ (nearest n).1 ∧ (nearest n).1 ≤ n.log2 - 51 := by
  obtain ⟨hlow, hhigh⟩ := leadingBits_bounds hn
  rw [nearest]
  split
  · exact ⟨le_rfl, by norm_num, by omega, le_rfl⟩
  · exact ⟨hlow, by omega, le_rfl, by omega⟩

/-- A carry leaves the least mantissa. -/
theorem nearest_of_carry {n : ℕ} (h : (nearest n).1 = n.log2 - 51) : (nearest n).2 = 2 ^ 52 := by
  by_cases hcarry : leadingBits n = 2 ^ 53
  · rw [nearest, if_pos hcarry]
  · rw [nearest, if_neg hcarry] at h
    simp only at h
    omega

/-- Nearest doubles are in the order of their numbers. -/
theorem nearest_mono {a b : ℕ} (ha : a ≠ 0) (hab : a ≤ b) :
    (toLex ((nearest a).1, ((nearest a).2 : ℤ)) : ℤ ×ₗ ℤ) ≤
      toLex ((nearest b).1, ((nearest b).2 : ℤ)) := by
  have hb : b ≠ 0 := by omega
  obtain ⟨-, -, -, hexponent⟩ := nearest_bounds ha
  obtain ⟨hlow, -, hexponent', -⟩ := nearest_bounds hb
  have hlog : a.log2 ≤ b.log2 := (Nat.le_log2 hb).mpr ((Nat.log2_self_le ha).trans hab)
  -- A number with more bits has the greater exponent, except after a carry of the other.
  rw [Prod.Lex.toLex_le_toLex]
  show (nearest a).1 < (nearest b).1 ∨
    (nearest a).1 = (nearest b).1 ∧ ((nearest a).2 : ℤ) ≤ (nearest b).2
  rcases hlog.eq_or_lt with hlog | hlog
  · have hbits := leadingBits_mono hab hlog
    have := (leadingBits_bounds hb).2
    simp only [nearest, hlog]
    split <;> split <;> simp only [true_and] <;> omega
  · have hle : (nearest a).1 ≤ (nearest b).1 := by omega
    rcases hle.lt_or_eq with hlt | heq
    · exact Or.inl hlt
    · refine Or.inr ⟨heq, ?_⟩
      rw [nearest_of_carry (by omega)]
      exact_mod_cast hlow

theorem targetExponent_eq {total : ℤ} (h : -1021 ≤ total) :
    Format.binary64.targetExponent total = total - 53 := by
  show max (total - 53) (-1074) = _
  omega

/-- A number of fewer than 53 bits gets zeros before it is rounded. -/
theorem decreaseExponent_eq (n : ℕ) :
    decreaseExponent n 0 (n.log2 - 52) = (n <<< (52 - n.log2), -((52 - n.log2 : ℕ) : ℤ)) := by
  rw [decreaseExponent, show ((0 : ℤ) - (n.log2 - 52)).toNat = 52 - n.log2 by omega, zero_sub]

/-- The first shift leaves 53 bits. -/
theorem shiftToTargetExponent_shiftLeft {n : ℕ} (hn : n ≠ 0) :
    shiftToTargetExponent .binary64 (n <<< (52 - n.log2)) (-((52 - n.log2 : ℕ) : ℤ)) .exact =
      ((⟨n <<< (52 - n.log2), false, false⟩ : ExtendedMantissa) >>> (n.log2 - 52),
        (n.log2 : ℤ) - 52) := by
  have htarget : Format.binary64.targetExponent (totalExponent (n <<< (52 - n.log2))
      (-((52 - n.log2 : ℕ) : ℤ))) = n.log2 - 52 := by
    rw [totalExponent, log2_shiftLeft hn, targetExponent_eq] <;> omega
  rw [shiftToTargetExponent, htarget, shiftToExponent,
    show ((n.log2 : ℤ) - 52 - -((52 - n.log2 : ℕ) : ℤ)).toNat = n.log2 - 52 by omega,
    show -((52 - n.log2 : ℕ) : ℤ) + ((n.log2 - 52 : ℕ) : ℤ) = n.log2 - 52 by omega]
  rfl

/-- The second shift takes the last bit away again after a carry. -/
theorem shiftToTargetExponent_leadingBits {n : ℕ} (hn : n ≠ 0) :
    shiftToTargetExponent .binary64 (leadingBits n) (n.log2 - 52) .exact =
      (⟨(nearest n).2, false, false⟩, (nearest n).1) := by
  obtain ⟨hlow, hhigh⟩ := leadingBits_bounds hn
  by_cases hcarry : leadingBits n = 2 ^ 53
  · have htarget : Format.binary64.targetExponent (totalExponent (2 ^ 53) (n.log2 - 52)) =
        n.log2 - 51 := by
      rw [totalExponent, Nat.log2_two_pow, targetExponent_eq] <;> omega
    rw [nearest, if_pos hcarry, hcarry, shiftToTargetExponent, htarget, shiftToExponent,
      show ((n.log2 : ℤ) - 51 - (n.log2 - 52)).toNat = 1 by omega,
      show (n.log2 : ℤ) - 52 + (1 : ℕ) = n.log2 - 51 by omega]
    rfl
  · have hlog : (leadingBits n).log2 = 52 := (Nat.log2_eq_iff (by omega)).mpr ⟨hlow, by omega⟩
    have htarget : Format.binary64.targetExponent (totalExponent (leadingBits n) (n.log2 - 52)) =
        n.log2 - 52 := by
      rw [totalExponent, hlog, targetExponent_eq] <;> omega
    rw [nearest, if_neg hcarry, shiftToTargetExponent, htarget, shiftToExponent, sub_self]
    exact congrArg (Prod.mk _) (add_zero _)

theorem nearest_pos {n : ℕ} (hn : n ≠ 0) : 0 < (nearest n).2 :=
  (Nat.two_pow_pos 52).trans_le (nearest_bounds hn).1

/-- The double nearest to a number, which is not zero, with a sign. -/
def nearestDouble (sign : Sign) (n : ℕ) (hn : n ≠ 0) : Float.Model.UnpackedFloat :=
  .finite sign (nearest n).2 (nearest n).1 (nearest_pos hn)

/-- An integer is rounded to the nearest double. -/
theorem round_eq (sign : Sign) {n : ℕ} (hn : n ≠ 0) :
    UnpackedFloat.round .binary64 sign n 0 = nearestDouble sign n hn := by
  have htarget : Format.binary64.targetExponent (totalExponent n 0) = n.log2 - 52 := by
    rw [totalExponent, targetExponent_eq] <;> omega
  have hcarry := shiftToTargetExponent_leadingBits hn
  rw [leadingBits, withoutBits] at hcarry
  simp only [UnpackedFloat.round, htarget, decreaseExponent_eq, roundWithAccuracy,
    shiftToTargetExponent_shiftLeft hn, hcarry]
  exact dif_neg (nearest_pos hn).ne'

/-! ## Packing -/

/-- Packing a normal double loses nothing. -/
theorem unpack_pack_finite (sign : Sign) {m : ℕ} {e : ℤ} (hpos : 0 < m) (hlow : 2 ^ 52 ≤ m)
    (hhigh : m < 2 ^ 53) (he : -1074 ≤ e) (he' : e ≤ 971) :
    (Float.Model.pack (.finite sign m e hpos)).unpack = .finite sign m e hpos := by
  have hlog : m.log2 = 52 := (Nat.log2_eq_iff (by omega)).mpr ⟨hlow, hhigh⟩
  obtain ⟨biased, hbiased⟩ : ∃ biased : ℕ, (biased : ℤ) = e + 1075 :=
    ⟨(e + 1075).toNat, Int.toNat_of_nonneg (by omega)⟩
  have hexponent : (BitVec.ofNat 11 biased).toNat = biased := by
    rw [BitVec.toNat_ofNat, Nat.mod_eq_of_lt (by omega)]
  have hones : BitVec.ofNat 11 biased ≠ -1#11 := fun h => by
    have := hexponent.symm.trans (congrArg BitVec.toNat h)
    norm_num at this
    omega
  have hzero : BitVec.ofNat 11 biased ≠ 0#11 := fun h => by
    have := hexponent.symm.trans (congrArg BitVec.toNat h)
    norm_num at this
    omega
  -- The leading bit of the mantissa is left out, and put back.
  have hmantissa : (1#1 ++ BitVec.ofNat 52 m).toNat = m := by
    rw [BitVec.toNat_append, ← Nat.shiftLeft_add_eq_or_of_lt (BitVec.isLt _), BitVec.toNat_ofNat,
      Nat.shiftLeft_eq]
    show 1 * 2 ^ 52 + m % 2 ^ 52 = m
    omega
  have hpack : UnpackedFloat.pack .binary64 (.finite sign m e hpos) =
      packComponents .binary64 sign (BitVec.ofNat 11 biased) (BitVec.ofNat 52 m) := by
    show (if 2 ^ 11 ≤ (e + 1023 + 52).toNat + 1 then _ else if m.log2 + 1 = 53 then
      packComponents .binary64 sign (BitVec.ofNat 11 (e + 1023 + 52).toNat) _ else _) = _
    rw [show (e + 1023 + 52).toNat = biased by omega, if_neg (by omega), if_pos (by omega)]
  show UnpackedFloat.unpack .binary64 (UnpackedFloat.pack .binary64 (.finite sign m e hpos)) = _
  rw [hpack, UnpackedFloat.unpack]
  simp only [unpackExponent_packComponents, unpackMantissa_packComponents,
    unpackSign_packComponents, Sign.ofBitVec_toBitVec]
  rw [if_neg hones, if_neg hzero, UnpackedFloat.finite.injEq, hexponent]
  refine ⟨rfl, hmantissa, ?_⟩
  show (biased : ℤ) - (1023 + 52) = e
  omega

/-! ## Promotion -/

/-- The integers that have a sign and their opposites fit into 64 bits without one. -/
theorem natAbs_lt (i : Int64) : i.toInt.natAbs < 2 ^ 64 := by
  have := i.le_toInt
  have := i.toInt_lt
  omega

theorem unpack_pack_nearestDouble (sign : Sign) {n : ℕ} (hn : n ≠ 0) (hbound : n < 2 ^ 64) :
    (Float.Model.pack (nearestDouble sign n hn)).unpack = nearestDouble sign n hn := by
  obtain ⟨hlow, hhigh, hexponent, hexponent'⟩ := nearest_bounds hn
  have hlog : n.log2 < 64 := (Nat.log2_lt hn).mpr hbound
  exact unpack_pack_finite sign _ hlow hhigh (by omega) (by omega)

/-- A number without a sign is promoted to the nearest double. -/
theorem unpack_toFloat {n : ℕ} (hn : n ≠ 0) (hbound : n < 2 ^ 64) :
    (UInt64.ofNat n).toFloat.toModel.unpack = nearestDouble .positive n hn := by
  have htoNat : (UInt64.ofNat n).toNat = n :=
    UInt64.toNat_ofNat_of_lt' hbound
  have hround : UnpackedFloat.ofNat .binary64 n = nearestDouble .positive n hn := by
    rw [UnpackedFloat.ofNat, UnpackedFloat.ofInt, UnpackedFloat.normalize,
      compare_gt_iff_gt.mpr (by omega : (0 : ℤ) < n)]
    exact round_eq .positive hn
  show (Float.Model.pack (UnpackedFloat.ofNat .binary64 (UInt64.ofNat n).toNat)).unpack = _
  rw [htoNat, hround, unpack_pack_nearestDouble .positive hn hbound]

theorem unpack_neg (x : Float) :
    (-x).toModel.unpack = (Float.Model.pack x.toModel.unpack.neg).unpack := rfl

variable {i j : Int64}

theorem unpack_promote_of_pos (h : i.toInt.natAbs ≠ 0) (hi : 0 ≤ i.toInt) :
    (promote i).toModel.unpack = nearestDouble .positive i.toInt.natAbs h := by
  have hlt : ¬i < 0 := by
    rw [Int64.lt_iff_toInt_lt]
    exact hi.not_gt
  rw [promote, if_neg hlt, unpack_toFloat h (natAbs_lt i)]

theorem unpack_promote_of_neg (h : i.toInt.natAbs ≠ 0) (hi : i.toInt < 0) :
    (promote i).toModel.unpack = nearestDouble .negative i.toInt.natAbs h := by
  have hlt : i < 0 := Int64.lt_iff_toInt_lt.mpr hi
  rw [promote, if_pos hlt, unpack_neg, unpack_toFloat h (natAbs_lt i)]
  exact unpack_pack_nearestDouble .negative h (natAbs_lt i)

theorem unpack_promote_of_zero (hi : i.toInt = 0) :
    (promote i).toModel.unpack = .zero .positive := by
  obtain rfl : i = 0 := Int64.toInt_inj.mp hi
  exact unpack_packedZero

/-- No integer is promoted to a NaN. -/
theorem promote_isNaN (i : Int64) : (promote i).isNaN = false := by
  show (promote i).toModel.unpack.isNaN = false
  rcases lt_trichotomy i.toInt 0 with h | h | h
  · rw [unpack_promote_of_neg (by omega) h]
    rfl
  · rw [unpack_promote_of_zero h]
    rfl
  · rw [unpack_promote_of_pos (by omega) h.le]
    rfl

theorem sortKeyOf_nearestDouble_positive {n : ℕ} (hn : n ≠ 0) :
    sortKeyOf (nearestDouble .positive n hn) =
      toLex (1, toLex ((nearest n).1, ((nearest n).2 : ℤ))) := rfl

theorem sortKeyOf_nearestDouble_negative {n : ℕ} (hn : n ≠ 0) :
    sortKeyOf (nearestDouble .negative n hn) =
      toLex (-1, toLex (-(nearest n).1, -((nearest n).2 : ℤ))) := rfl

/-- Keys of one sign are in order if what follows the sign is. -/
theorem toLex_le_toLex_of_le {sign : ℤ} {a b : ℤ ×ₗ ℤ} (h : a ≤ b) :
    (toLex (sign, a) : SortKey) ≤ toLex (sign, b) :=
  Prod.Lex.toLex_le_toLex.mpr (Or.inr ⟨rfl, h⟩)

theorem neg_toLex_le {e m e' m' : ℤ} (h : (toLex (e, m) : ℤ ×ₗ ℤ) ≤ toLex (e', m')) :
    (toLex (-e', -m') : ℤ ×ₗ ℤ) ≤ toLex (-e, -m) := by
  rw [Prod.Lex.toLex_le_toLex] at h ⊢
  simp only at h ⊢
  omega

theorem sortKey_promote_nonpos (hi : i.toInt ≤ 0) :
    sortKey (promote i) ≤ sortKeyOf (.zero .positive) := by
  rw [sortKey]
  rcases hi.lt_or_eq with hi | hi
  · rw [unpack_promote_of_neg (by omega) hi, Prod.Lex.le_iff]
    exact Or.inl (by decide : (-1 : ℤ) < 0)
  · rw [unpack_promote_of_zero hi]

theorem sortKey_promote_nonneg (hi : 0 ≤ i.toInt) :
    sortKeyOf (.zero .positive) ≤ sortKey (promote i) := by
  rw [sortKey]
  rcases hi.lt_or_eq with hi | hi
  · rw [unpack_promote_of_pos (by omega) hi.le, Prod.Lex.le_iff]
    exact Or.inl (by decide : (0 : ℤ) < 1)
  · rw [unpack_promote_of_zero hi.symm]

/-- Promotion is monotone. -/
theorem sortKey_promote_mono (h : i.toInt ≤ j.toInt) :
    sortKey (promote i) ≤ sortKey (promote j) := by
  rcases lt_or_ge j.toInt 0 with hj | hj
  · have hi : i.toInt < 0 := h.trans_lt hj
    rw [sortKey, sortKey, unpack_promote_of_neg (by omega) hi, unpack_promote_of_neg (by omega) hj,
      sortKeyOf_nearestDouble_negative, sortKeyOf_nearestDouble_negative]
    exact toLex_le_toLex_of_le (neg_toLex_le (nearest_mono (by omega) (by omega)))
  · rcases le_or_gt i.toInt 0 with hi | hi
    · exact (sortKey_promote_nonpos hi).trans (sortKey_promote_nonneg hj)
    · rw [sortKey, sortKey, unpack_promote_of_pos (by omega) hi.le,
        unpack_promote_of_pos (by omega) hj, sortKeyOf_nearestDouble_positive,
        sortKeyOf_nearestDouble_positive]
      exact toLex_le_toLex_of_le (nearest_mono (by omega) (by omega))

-- Past 53 bits neighbours are promoted to one double.
example : promote 9007199254740993 = promote 9007199254740992 := rfl

end Formulary
