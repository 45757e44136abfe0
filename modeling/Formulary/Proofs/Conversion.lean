import Formulary.Proofs.Doubles
import Formulary.Value.Json

/-! # Documents turned into values and back

A container stays whole inside its handle, and a scalar is written out of the value it became.
Values have fewer whole numbers than documents, though: those past the signed integers become
doubles and do not come back, unless a container holds them.
-/

namespace Formulary

namespace Json.Number

/-- What numbers of a document are: those of the signed kind are below zero, and doubles are
finite. -/
def Proper : Number → Prop
  | natural _ => True
  | negative i => i < 0
  | double x => x.isFinite = true

/-- A signed integer is below zero where its bits, taken without a sign, are in the upper half. -/
theorem toInt64_neg_iff (n : UInt64) : n.toInt64 < 0 ↔ 2 ^ 63 ≤ n.toNat := by
  rw [Int64.lt_iff_toInt_lt, ← Int64.toInt_toBitVec, UInt64.toBitVec_toInt64]
  show n.toBitVec.toInt < 0 ↔ 2 ^ 63 ≤ n.toBitVec.toNat
  rw [BitVec.toInt_neg_iff]
  omega

theorem ofInt64_toInt64 {n : UInt64} (h : n.toNat < 2 ^ 63) : ofInt64 n.toInt64 = natural n := by
  rw [ofInt64, if_neg (mt (toInt64_neg_iff n).mp h.not_ge)]
  rfl

theorem ofInt64_of_neg {i : Int64} (h : i < 0) : ofInt64 i = negative i := if_pos h

end Json.Number

/-- Every number of 64 bits without a sign is promoted to a finite double. -/
theorem toFloat_isFinite (n : UInt64) : n.toFloat.isFinite = true := by
  show n.toFloat.toModel.unpack.isFinite = true
  by_cases hn : n.toNat = 0
  · rw [UInt64.toNat_inj.mp (hn.trans UInt64.toNat_zero.symm)]
    rfl
  · have hunpack := unpack_toFloat hn n.toNat_lt
    rw [UInt64.ofNat_toNat] at hunpack
    rw [hunpack]
    rfl

namespace Value

/-- A finite double is written as a number. -/
theorem toJson_float {x : Float} (h : x.isFinite = true) :
    (float x).toJson = .number (.double x) := by
  have hwritten : (x.isNaN || x.isInf) = false := by
    show (x.toModel.unpack.isNaN || x.toModel.unpack.isInf) = false
    change x.toModel.unpack.isFinite = true at h
    cases hx : x.toModel.unpack with
    | notANumber => rw [hx] at h; cases h
    | infinity => rw [hx] at h; cases h
    | zero => rfl
    | finite => rfl
  rw [toJson, hwritten]
  rfl

/-- A whole number past the signed integers becomes a double. -/
theorem toJson_ofJson_natural (serial : ℕ) (n : UInt64) :
    (ofJson serial (.number (.natural n))).toJson =
      .number (if n.toNat < 2 ^ 63 then .natural n else .double n.toFloat) := by
  rw [ofJson]
  show (if n.toNat < 2 ^ 63 then int n.toInt64 else float n.toFloat).toJson = _
  by_cases h : n.toNat < 2 ^ 63
  · rw [if_pos h, if_pos h, toJson, Json.Number.ofInt64_toInt64 h]
  · rw [if_neg h, if_neg h, toJson_float (toFloat_isFinite n)]

theorem toJson_ofJson_of_ne_natural (serial : ℕ) {document : Json}
    (hproper : ∀ n, document = .number n → n.Proper)
    (hwhole : ∀ n, document ≠ .number (.natural n)) :
    (ofJson serial document).toJson = document := by
  cases document with
  | number number =>
      cases number with
      | natural n => exact absurd rfl (hwhole n)
      | negative i =>
          exact congrArg Json.number (Json.Number.ofInt64_of_neg (hproper _ rfl))
      | double x => exact toJson_float (hproper _ rfl)
  | _ => rfl

/-- A document turned into a value and back is the same, unless it is a whole number past the signed
integers: that becomes the double it is promoted to. -/
theorem toJson_ofJson (serial : ℕ) {document : Json}
    (hproper : ∀ n, document = .number n → n.Proper) :
    ((ofJson serial document).toJson = document ↔
      ∀ n, document = .number (.natural n) → n.toNat < 2 ^ 63) ∧
    ∀ n, document = .number (.natural n) → 2 ^ 63 ≤ n.toNat →
      (ofJson serial document).toJson = .number (.double n.toFloat) := by
  by_cases hwhole : ∃ n, document = .number (.natural n)
  · obtain ⟨n, rfl⟩ := hwhole
    rw [toJson_ofJson_natural]
    simp only [Json.number.injEq, Json.Number.natural.injEq, forall_eq']
    refine ⟨⟨fun hback => ?_, fun h => if_pos h⟩, fun h => if_neg h.not_gt⟩
    -- A double is no whole number, even where the two are equal.
    by_contra hbeyond
    rw [if_neg hbeyond] at hback
    cases hback
  · have hback := toJson_ofJson_of_ne_natural serial hproper fun n h => hwhole ⟨n, h⟩
    exact ⟨iff_of_true hback fun n h => absurd ⟨n, h⟩ hwhole, fun n h => absurd ⟨n, h⟩ hwhole⟩

theorem toJson_ofJson_least :
    (ofJson 0 (.number (.negative (-9223372036854775808)))).toJson =
      .number (.negative (-9223372036854775808)) := by
  refine (toJson_ofJson 0 fun n hn => ?_).1.mpr fun n hn => by cases hn
  obtain rfl := Json.number.inj hn
  exact (by decide : (-9223372036854775808 : Int64) < 0)

/-- The least whole number past the signed integers comes back as a double. -/
theorem toJson_ofJson_past_signed :
    (Json.Number.natural 9223372036854775808).Proper ∧
      (ofJson 0 (.number (.natural 9223372036854775808))).toJson =
        .number (.double (9223372036854775808 : UInt64).toFloat) ∧
      (ofJson 0 (.number (.natural 9223372036854775808))).toJson ≠
        .number (.natural 9223372036854775808) := by
  have hback := toJson_ofJson_natural 0 9223372036854775808
  rw [if_neg (by decide)] at hback
  rw [hback]
  exact ⟨trivial, rfl, fun h => by cases h⟩

end Value

end Formulary
