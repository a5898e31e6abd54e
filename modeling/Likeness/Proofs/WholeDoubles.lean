import Likeness.Proofs.Doubles
import Likeness.Vector.Cosine

/-!
# Whole numbers as doubles

Up to 2^53 the whole numbers are doubles (`valueOf?_lengthToFloat`), and their sums and products are computed without
rounding (`lengthToFloat_add`, `lengthToFloat_mul`).  A sum that is taken step by step is therefore the whole number that
it should be, as long as this one is in range (`foldl_eq_lengthToFloat`).
-/

namespace Likeness

open Float.Model
open Float.Model.UnpackedFloat hiding round normalize

theorem exists_isCanonical {n : Nat} (hpos : 0 < n) (hle : n ≤ 2 ^ 53) :
    ∃ m e, IsCanonical m e ∧ 2 ^ 52 ≤ m ∧ e ≤ 1 ∧ (n : ℚ) = m * 2 ^ e := by
  rcases hle.lt_or_eq with hlt | rfl
  · -- a number of at most 53 bits is shifted to 53 of them
    obtain ⟨k, hk⟩ : ∃ k, n.log2 + k = 52 := ⟨52 - n.log2, by have := (Nat.log2_lt hpos.ne').2 hlt; omega⟩
    have hlow : 2 ^ 52 ≤ n * 2 ^ k := by
      rw [← hk, Nat.pow_add]
      exact Nat.mul_le_mul_right _ (Nat.log2_self_le hpos.ne')
    have hhigh : n * 2 ^ k < 2 ^ 53 := by
      rw [show 53 = n.log2 + 1 + k by omega, Nat.pow_add]
      exact Nat.mul_lt_mul_of_pos_right Nat.lt_log2_self (Nat.two_pow_pos k)
    refine ⟨n * 2 ^ k, -k, ⟨by omega, hhigh, by omega, by omega, .inl hlow⟩, hlow, by omega, ?_⟩
    rw [zpow_neg, zpow_natCast]
    push_cast
    field_simp
  · exact ⟨2 ^ 52, 1, ⟨by omega, by omega, by omega, by omega, .inl le_rfl⟩, le_rfl, le_rfl, by norm_num⟩

theorem unpack_lengthToFloat {n : Nat} (hpos : 0 < n) (hle : n ≤ 2 ^ 53) :
    ∃ m e, ∃ h : IsCanonical m e,
      (lengthToFloat n).toModel.unpack = .finite .positive m e h.pos ∧ (n : ℚ) = m * 2 ^ e := by
  obtain ⟨m, e, h, _, _, hvalue⟩ := exists_isCanonical hpos hle
  refine ⟨m, e, h, ?_, hvalue⟩
  have hword : n.toUInt64.toNat = n := by
    rw [Nat.toUInt64_eq, UInt64.toNat_ofNat_of_lt' (hle.trans_lt (by decide))]
  have hnormal : UnpackedFloat.normalize Format.binary64 (n.toUInt64.toNat : Int) 0 .positive =
      .finite .positive m e h.pos := by
    rw [hword]
    exact normalize_exact h (by simpa [Sign.apply] using hvalue) .positive
  change UnpackedFloat.unpack Format.binary64 (UnpackedFloat.pack Format.binary64
    (UnpackedFloat.normalize Format.binary64 (n.toUInt64.toNat : Int) 0 .positive)) = _
  rw [hnormal, unpack_pack h]

/-- Every whole number up to 2^53 is a double. -/
theorem valueOf?_lengthToFloat {n : Nat} (h : n ≤ 2 ^ 53) : valueOf? (lengthToFloat n) = some (n : ℚ) := by
  rcases n.eq_zero_or_pos with rfl | hpos
  · rfl
  · obtain ⟨m, e, hcanon, hunpack, hvalue⟩ := unpack_lengthToFloat hpos h
    rw [valueOf?_eq_some]
    exact .inr ⟨_, m, e, hcanon, hunpack, by simpa [Sign.apply] using hvalue⟩

theorem valueOf?_one : valueOf? 1.0 = some 1 :=
  valueOf?_lengthToFloat (n := 1) (by decide)

theorem toFloat_eq_lengthToFloat (n : UInt32) : n.toFloat = lengthToFloat n.toNat := by
  have hword : n.toNat.toUInt64.toNat = n.toNat := by
    rw [Nat.toUInt64_eq, UInt64.toNat_ofNat_of_lt' (n.toNat_lt.trans (by decide))]
  change Float.ofModel (Float.Model.pack (UnpackedFloat.ofNat Format.binary64 n.toNat)) =
    Float.ofModel (Float.Model.pack (UnpackedFloat.ofNat Format.binary64 n.toNat.toUInt64.toNat))
  rw [hword]

/-- Whole numbers are added exactly up to 2^53. -/
theorem lengthToFloat_add {a b : Nat} (h : a + b ≤ 2 ^ 53) :
    lengthToFloat a + lengthToFloat b = lengthToFloat (a + b) := by
  rcases (a + b).eq_zero_or_pos with hzero | hpos
  · obtain ⟨rfl, rfl⟩ : a = 0 ∧ b = 0 := by omega
    rfl
  · have hvalue : valueOf? (lengthToFloat (a + b)) = some ((a : ℚ) + b) := by
      rw [valueOf?_lengthToFloat h, Nat.cast_add]
    have hsum := valueOf?_add (valueOf?_lengthToFloat (by omega)) (valueOf?_lengthToFloat (by omega)) hvalue
    exact eq_of_valueOf?_eq hsum hvalue (by exact_mod_cast hpos.ne')

private theorem lengthToFloat_zero_mul {b : Nat} (h : b ≤ 2 ^ 53) :
    lengthToFloat 0 * lengthToFloat b = lengthToFloat 0 := by
  rcases b.eq_zero_or_pos with rfl | hpos
  · rfl
  · obtain ⟨m, e, hcanon, hunpack, _⟩ := unpack_lengthToFloat hpos h
    have hzero : (lengthToFloat 0).toModel.unpack = .zero .positive := rfl
    refine eq_of_unpack_eq ?_
    rw [unpack_mul, hunpack, hzero]
    exact unpack_packedZero

/-- Whole numbers are multiplied exactly up to 2^53. -/
theorem lengthToFloat_mul {a b : Nat} (ha : a ≤ 2 ^ 53) (hb : b ≤ 2 ^ 53) (h : a * b ≤ 2 ^ 53) :
    lengthToFloat a * lengthToFloat b = lengthToFloat (a * b) := by
  rcases a.eq_zero_or_pos with rfl | hposa
  · rw [lengthToFloat_zero_mul hb, Nat.zero_mul]
  · rcases b.eq_zero_or_pos with rfl | hposb
    · rw [float_mul_comm, lengthToFloat_zero_mul ha, Nat.mul_zero]
    · have hvalue : valueOf? (lengthToFloat (a * b)) = some ((a : ℚ) * b) := by
        rw [valueOf?_lengthToFloat h, Nat.cast_mul]
      have hprod := valueOf?_mul (valueOf?_lengthToFloat ha) (valueOf?_lengthToFloat hb) hvalue
      exact eq_of_valueOf?_eq hprod hvalue (by exact_mod_cast (Nat.mul_pos hposa hposb).ne')

theorem zero_eq_lengthToFloat : (0.0 : Float) = lengthToFloat 0 := rfl

/-- Negative zero does not matter to a sum. -/
theorem neg_zero_add_lengthToFloat {n : Nat} (h : n ≤ 2 ^ 53) : -0.0 + lengthToFloat n = lengthToFloat n := by
  rcases n.eq_zero_or_pos with rfl | hpos
  · rfl
  · obtain ⟨m, e, hcanon, hunpack, _⟩ := unpack_lengthToFloat hpos h
    refine eq_of_unpack_eq ?_
    have hzero : (-0.0 : Float).toModel.unpack = .zero .negative := rfl
    rw [unpack_add, hunpack, hzero]
    exact unpack_pack hcanon .positive

/-- A sum of whole numbers that is taken step by step, each step adding its number exactly as long as the sum stays in
range. -/
theorem foldl_eq_lengthToFloat {α : Type} {step : Float → α → Float} {f : α → Nat} (xs : List α)
    (hstep : ∀ x s, s + f x ≤ 2 ^ 53 → step (lengthToFloat s) x = lengthToFloat (s + f x)) (s : Nat)
    (h : s + (xs.map f).sum ≤ 2 ^ 53) : xs.foldl step (lengthToFloat s) = lengthToFloat (s + (xs.map f).sum) := by
  induction xs generalizing s with
  | nil => rfl
  | cons x xs ih =>
    rw [List.map_cons, List.sum_cons, ← Nat.add_assoc] at h ⊢
    rw [List.foldl_cons, hstep x s (by omega), ih _ h]

end Likeness
