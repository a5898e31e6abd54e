import Likeness.Proofs.Nearest
import Likeness.Proofs.WholeDoubles

/-!
# Quotients and roots

Division and the square root keep the side of every double on which the exact result lies, as the other operations do.

* (quotients) the mantissa of a quotient is computed with enough bits (`divCore_fits`) and holds the exact quotient
  (`holds_quotient`); `exists_valueOf?_div` is the law.
* (roots) `sqrtCore_fits`, `splits_root` and `exists_valueOf?_sqrt` say the same of roots, which are never infinite, and
  `exists_nearest_sqrt` says that no double is nearer.
* (exact results) A number divided by itself is 1 (`div_self_eq_one`).  The root of a square is the number itself
  (`sqrt_mul_self`): the square is off by half a unit at most, hence its root by less than half a unit, and rounding to the
  nearest leads back.
-/

namespace Likeness

open Float.Model
open Float.Model.UnpackedFloat hiding round normalize

/-! ### Quotients -/

theorem unpack_div (x y : Float) :
    (x / y).toModel.unpack =
      UnpackedFloat.unpack Format.binary64
        (UnpackedFloat.pack Format.binary64 (UnpackedFloat.div Format.binary64 x.toModel.unpack y.toModel.unpack)) := rfl

theorem unpack_sqrt (x : Float) :
    x.sqrt.toModel.unpack =
      UnpackedFloat.unpack Format.binary64
        (UnpackedFloat.pack Format.binary64 (UnpackedFloat.sqrt Format.binary64 x.toModel.unpack)) := rfl

theorem targetExponent_sub (a b : Int) : Format.binary64.targetExponent (a - b) = max (a - b - 53) (-1074) := by
  simp only [Format.targetExponent]
  rfl

/-- A quotient is computed with enough bits. -/
private theorem divCore_fits {m₁ m₂ : Nat} {e₁ e₂ : Int} (h₁ : 0 < m₁) (h₂ : 0 < m₂) :
    let quotient := divCore Format.binary64 m₁ e₁ m₂ e₂
    2 ^ 52 ≤ quotient.1 ∨ quotient.2.1 ≤ -1074 := by
  simp only [divCore, targetExponent_sub, totalExponent]
  obtain ⟨e, he⟩ : ∃ e, e = min (e₁ - e₂) (max ((m₁.log2 : Int) + 1 + e₁ - (m₂.log2 + 1 + e₂) - 53) (-1074)) := ⟨_, rfl⟩
  rw [← he]
  by_cases hleast : e ≤ -1074
  · exact .inr hleast
  · refine .inl ((Nat.le_div_iff_mul_le h₂).2 ?_)
    rw [Nat.shiftLeft_eq]
    calc 2 ^ 52 * m₂
      _ ≤ 2 ^ 52 * 2 ^ (m₂.log2 + 1) := Nat.mul_le_mul_left _ Nat.lt_log2_self.le
      _ = 2 ^ (m₂.log2 + 53) := by rw [← Nat.pow_add]; congr 1; omega
      _ ≤ 2 ^ (m₁.log2 + (e₁ - e₂ - e).toNat) := Nat.pow_le_pow_right two_pos (by omega)
      _ = 2 ^ m₁.log2 * 2 ^ (e₁ - e₂ - e).toNat := Nat.pow_add ..
      _ ≤ m₁ * 2 ^ (e₁ - e₂ - e).toNat := Nat.mul_le_mul_right _ (Nat.log2_self_le h₁.ne')

/-- The quotient of two whole numbers is held by its whole part and what the remainder says. -/
private theorem holds_quotient (a : Nat) {b : Nat} (hb : 0 < b) :
    Holds (.ofMantissaAndAccuracy (a / b) (accuracyOfFraction (a % b) b)) (a / b) := by
  have hpos : (0 : ℝ) < b := by exact_mod_cast hb
  have hdiv : (a : ℝ) = b * (a / b : Nat) + (a % b : Nat) := by exact_mod_cast (Nat.div_add_mod a b).symm
  unfold accuracyOfFraction
  split
  · next hrem =>
    have hexact : (a : ℝ) / b = (a / b : Nat) := by
      rw [div_eq_iff hpos.ne', mul_comm, hdiv, hrem]
      simp
    rw [hexact]
    exact holds_exact _
  · next hrem =>
    have hlow : (0 : ℝ) < (a % b : Nat) := by exact_mod_cast Nat.pos_of_ne_zero hrem
    have hhigh : ((a % b : Nat) : ℝ) < b := by exact_mod_cast Nat.mod_lt a hb
    refine holds_inexact _ ?_ ?_
    · rw [lt_div_iff₀ hpos]
      linarith
    · rw [div_lt_iff₀ hpos]
      linarith

theorem exists_valueOf?_div {x y : Float} {a b c : ℚ} (hx : valueOf? x = some a) (hy : valueOf? y = some b)
    (ha : 0 ≤ a) (hb : 0 < b) (hc : IsDouble c) (hle : a / b ≤ c) :
    ∃ v, valueOf? (x / y) = some v ∧ KeepsSides (a / b : ℚ) v := by
  have hnonneg : 0 ≤ c := (div_nonneg ha hb.le).trans hle
  obtain ⟨_, _, rfl⟩ | ⟨m₂, e₂, h₂, huy, rfl⟩ := cases_of_nonneg hy hb.le
  · exact absurd hb (lt_irrefl _)
  have hunpack := unpack_div x y
  obtain ⟨s₁, hux, rfl⟩ | ⟨m₁, e₁, h₁, hux, rfl⟩ := cases_of_nonneg hx ha
  · simp only [hux, huy, UnpackedFloat.div] at hunpack
    exact ⟨0, valueOf?_eq_some.2 (.inl ⟨_, hunpack.trans unpack_packedZero, rfl⟩), by simpa using KeepsSides.refl le_rfl⟩
  · simp only [hux, huy, UnpackedFloat.div] at hunpack
    have hfit := fits_of_full (@divCore_fits m₁ m₂ e₁ e₂ h₁.pos h₂.pos)
    obtain ⟨q, hq⟩ : ∃ q, q = divCore Format.binary64 m₁ e₁ m₂ e₂ := ⟨_, rfl⟩
    rw [← hq] at hunpack hfit
    have hheld : Holds (.ofMantissaAndAccuracy q.1 q.2.2) (((m₁ * 2 ^ e₁ / (m₂ * 2 ^ e₂) : ℚ) : ℝ) / 2 ^ q.2.1) := by
      have hle : q.2.1 ≤ e₁ - e₂ := hq ▸ Int.min_le_left _ _
      have hvalue : ((m₁ * 2 ^ e₁ / (m₂ * 2 ^ e₂) : ℚ) : ℝ) / 2 ^ q.2.1 =
          (m₁ <<< (e₁ - e₂ - q.2.1).toNat : Nat) / m₂ := by
        have hm₂ : (m₂ : ℝ) ≠ 0 := by exact_mod_cast h₂.pos.ne'
        have hpow : (2 : ℝ) ^ e₁ = 2 ^ (e₁ - e₂ - q.2.1).toNat * (2 ^ e₂ * 2 ^ q.2.1) := by
          rw [← zpow_natCast, ← zpow_add₀ two_ne_zero, ← zpow_add₀ two_ne_zero, Int.toNat_of_nonneg (by omega)]
          congr 1
          omega
        have := (real_zpow_pos e₂).ne'
        have := (real_zpow_pos q.2.1).ne'
        rw [Nat.shiftLeft_eq]
        push_cast
        rw [hpow]
        field_simp
      rw [hvalue, hq]
      exact holds_quotient _ h₂.pos
    obtain ⟨n, t, hn, hsides, hround⟩ := exists_rounded hfit hheld
    exact exists_valueOf?_of_scaled (hunpack.trans (by rw [← hround]; rfl)) hn hsides hc hnonneg (by exact_mod_cast hle)

/-! ### Roots -/

private theorem sqrtCore_fits {m : Nat} (e : Int) (hm : 0 < m) :
    let root := sqrtCore Format.binary64 m e
    2 ^ 52 ≤ root.1 ∨ root.2.1 ≤ -1074 := by
  have htarget : ∀ n, Format.binary64.targetExponent n = max (n - 53) (-1074) := fun n => by
    simpa using targetExponent_sub n 0
  simp only [sqrtCore, htarget, totalExponent]
  obtain ⟨t, ht⟩ : ∃ t, t = min (e.ediv 2) (max (((m.log2 : Int) + 1 + e + 1).ediv 2 - 53) (-1074)) := ⟨_, rfl⟩
  rw [← ht]
  by_cases hleast : t ≤ -1074
  · exact .inr hleast
  · refine .inl (Nat.le_sqrt.2 ?_)
    have he : e.ediv 2 = e / 2 := rfl
    have hl : ((m.log2 : Int) + 1 + e + 1).ediv 2 = ((m.log2 : Int) + 1 + e + 1) / 2 := rfl
    rw [he, hl] at ht
    rw [Nat.shiftLeft_eq]
    calc 2 ^ 52 * 2 ^ 52
      _ ≤ 2 ^ (m.log2 + (e - 2 * t).toNat) := by
        rw [← Nat.pow_add]
        exact Nat.pow_le_pow_right two_pos (by omega)
      _ = 2 ^ m.log2 * 2 ^ (e - 2 * t).toNat := Nat.pow_add ..
      _ ≤ m * 2 ^ (e - 2 * t).toNat := Nat.mul_le_mul_right _ (Nat.log2_self_le hm.ne')

/-- Whether the remainder is above the root tells on which side of the middle the root of a whole number lies. -/
private theorem splits_root (a : Nat) :
    Splits (.ofMantissaAndAccuracy a.sqrt (if a - a.sqrt * a.sqrt = 0 then .exact
      else .inexact (if a - a.sqrt * a.sqrt ≤ a.sqrt then .lt else .gt))) (√a) := by
  have hle := Nat.sqrt_le a
  have hlt := Nat.lt_succ_sqrt a
  split
  · next hrem =>
    have hsquare : (a : ℝ) = a.sqrt * a.sqrt := by exact_mod_cast (by omega : a = a.sqrt * a.sqrt)
    have hexact : √(a : ℝ) = a.sqrt := by
      conv => lhs; rw [hsquare]
      exact Real.sqrt_mul_self (Nat.cast_nonneg _)
    rw [hexact]
    exact splits_exact _
  · next hrem =>
    split
    · next hlow =>
      have hbelow : (a : ℝ) ≤ a.sqrt * a.sqrt + a.sqrt := by exact_mod_cast (by omega : a ≤ a.sqrt * a.sqrt + a.sqrt)
      refine splits_below ?_ ?_
      · apply Real.lt_sqrt_of_sq_lt
        rw [pow_two]
        exact_mod_cast (by omega : a.sqrt * a.sqrt < a)
      · rw [Real.sqrt_lt' (by positivity)]
        linarith
    · next hhigh =>
      have habove : (a.sqrt * a.sqrt + a.sqrt + 1 : ℝ) ≤ a := by
        exact_mod_cast (by omega : a.sqrt * a.sqrt + a.sqrt + 1 ≤ a)
      refine splits_above ?_ ?_
      · apply Real.lt_sqrt_of_sq_lt
        linarith
      · rw [Real.sqrt_lt' (by positivity), pow_two]
        exact_mod_cast hlt

private theorem exponent_of_one_le {m : Nat} {e : Int} (h : IsCanonical m e) (hone : (1 : ℚ) ≤ m * 2 ^ e) : -52 ≤ e := by
  have hm : (m : ℚ) < 2 ^ 53 := by exact_mod_cast h.lt
  have hlt : (2 : ℚ) ^ (0 : Int) < 2 ^ (53 + e) := by
    rw [zpow_zero, zpow_add₀ two_ne_zero]
    exact hone.trans_lt (mul_lt_mul_of_pos_right hm (zpow_two_pos e))
  have := (zpow_lt_zpow_iff_right₀ one_lt_two).1 hlt
  omega

/-- A whole number of at most 53 bits is still a double when its exponent is moved. -/
theorem isDouble_mul_two_zpow {n : Nat} {k : Int} (hn : n ≤ 2 ^ 53) (hleast : -1022 ≤ k) (hgreatest : k ≤ 970) :
    IsDouble (n * 2 ^ k) := by
  rcases n.eq_zero_or_pos with rfl | hpos
  · rw [Nat.cast_zero, zero_mul]
    exact isDouble_zero
  · obtain ⟨m, e, h, hfull, he, hvalue⟩ := exists_isCanonical hpos hn
    have hone : -52 ≤ e := exponent_of_one_le h (by rw [← hvalue]; exact_mod_cast hpos)
    have hmoved : IsCanonical m (e + k) := ⟨h.pos, h.lt, by omega, by omega, .inl hfull⟩
    rw [hvalue, mul_assoc, ← zpow_add₀ two_ne_zero]
    exact isDouble_of_isCanonical hmoved

private theorem isDouble_rootBound : IsDouble (2 ^ 512) := by
  have hdouble := @isDouble_mul_two_zpow 1 512 (by omega) (by omega) (by omega)
  rwa [Nat.cast_one, one_mul] at hdouble

private theorem sqrt_le_of_isCanonical {m : Nat} {e : Int} (h : IsCanonical m e) : √(m * 2 ^ e : ℝ) ≤ 2 ^ 512 := by
  have hm : (m : ℝ) ≤ 2 ^ 53 := by exact_mod_cast h.lt.le
  have he : (2 : ℝ) ^ e ≤ 2 ^ (971 : Int) := zpow_le_zpow_right₀ one_le_two h.greatest
  rw [Real.sqrt_le_left (by positivity)]
  calc (m : ℝ) * 2 ^ e
    _ ≤ 2 ^ 53 * 2 ^ (971 : Int) := by gcongr
    _ = (2 ^ 512) ^ 2 := by rw [← pow_mul, ← zpow_natCast, ← zpow_natCast, ← zpow_add₀ two_ne_zero]; rfl

/-- The root of a number that is not negative is finite, and it is rounded to a nearest double. -/
theorem exists_nearest_sqrt {x : Float} {a : ℚ} (hx : valueOf? x = some a) (ha : 0 ≤ a) :
    ∃ v, valueOf? x.sqrt = some v ∧ KeepsSides (√(a : ℝ)) v ∧ IsNearest (√(a : ℝ)) v := by
  have hunpack := unpack_sqrt x
  obtain ⟨s, hux, rfl⟩ | ⟨m, e, h, hux, rfl⟩ := cases_of_nonneg hx ha
  · simp only [hux, UnpackedFloat.sqrt] at hunpack
    refine ⟨0, valueOf?_eq_some.2 (.inl ⟨_, hunpack.trans unpack_packedZero, rfl⟩), ?_, fun _ => ?_⟩
    · simpa using KeepsSides.refl le_rfl
    · simp
  · simp only [hux, UnpackedFloat.sqrt] at hunpack
    have hfit := fits_of_full (sqrtCore_fits e h.pos)
    obtain ⟨q, hq⟩ : ∃ q, q = sqrtCore Format.binary64 m e := ⟨_, rfl⟩
    rw [← hq] at hunpack hfit
    have hsplits : Splits (.ofMantissaAndAccuracy q.1 q.2.2) (√((m * 2 ^ e : ℚ) : ℝ) / 2 ^ q.2.1) := by
      have hle : q.2.1 ≤ e.ediv 2 := hq ▸ Int.min_le_left _ _
      have hvalue : √((m * 2 ^ e : ℚ) : ℝ) / 2 ^ q.2.1 = √((m <<< (e - 2 * q.2.1).toNat : Nat) : ℝ) := by
        have hhalf : e.ediv 2 = e / 2 := rfl
        have hpow : (2 : ℝ) ^ e = 2 ^ (e - 2 * q.2.1).toNat * (2 ^ q.2.1) ^ 2 := by
          rw [← zpow_natCast, ← zpow_natCast, ← zpow_mul, ← zpow_add₀ two_ne_zero, Int.toNat_of_nonneg (by omega)]
          congr 1
          push_cast
          omega
        rw [div_eq_iff (real_zpow_pos _).ne', Nat.shiftLeft_eq, cast_mul_zpow, hpow, ← mul_assoc,
          Real.sqrt_mul' _ (by positivity), Real.sqrt_sq (real_zpow_pos _).le]
        push_cast
        rfl
      rw [hvalue, hq]
      exact splits_root _
    obtain ⟨n, t, hn, hsides, hnearest, _, hround⟩ := exists_nearest rfl hfit hsplits
    rw [hround] at hunpack
    have hle : √((m * 2 ^ e : ℚ) : ℝ) ≤ (2 ^ 512 : ℚ) := by
      rw [cast_mul_zpow]
      push_cast
      exact sqrt_le_of_isCanonical h
    have hvalue := valueOf?_of_keepsSides hunpack hn hsides isDouble_rootBound (by positivity) hle
    exact ⟨_, hvalue, by rwa [cast_mul_zpow n t], by rwa [cast_mul_zpow n t]⟩

theorem exists_valueOf?_sqrt {x : Float} {a : ℚ} (hx : valueOf? x = some a) (ha : 0 ≤ a) :
    ∃ v, valueOf? x.sqrt = some v ∧ KeepsSides (√(a : ℝ)) v := by
  obtain ⟨v, hv, hsides, _⟩ := exists_nearest_sqrt hx ha
  exact ⟨v, hv, hsides⟩

/-! ### Exact results -/

/-- A number that is a double is not rounded. -/
theorem KeepsSides.eq_of_isDouble {q v : ℚ} (h : KeepsSides q v) (hq : IsDouble q) (hnonneg : 0 ≤ q) : v = q :=
  le_antisymm (h.le_of_le hq hnonneg le_rfl) (h.le_of_ge hq le_rfl)

/-- The root of a zero is a zero. -/
theorem valueOf?_sqrt_of_zero {x : Float} (hx : valueOf? x = some 0) : valueOf? x.sqrt = some 0 := by
  obtain ⟨v, hv, hsides⟩ := exists_valueOf?_sqrt hx le_rfl
  have hroot : KeepsSides (0 : ℚ) v := by simpa using hsides
  rw [hv, hroot.eq_of_isDouble isDouble_zero le_rfl]

theorem div_self_eq_one {x : Float} {a : ℚ} (hx : valueOf? x = some a) (ha : 0 < a) : x / x = 1.0 := by
  have hself : a / a = 1 := div_self ha.ne'
  obtain ⟨v, hv, hsides⟩ := exists_valueOf?_div hx hx ha.le ha ⟨_, valueOf?_one⟩ hself.le
  rw [hself] at hsides
  rw [hsides.eq_of_isDouble ⟨_, valueOf?_one⟩ zero_le_one] at hv
  exact eq_of_valueOf?_eq hv valueOf?_one one_ne_zero

/-- A square is rounded by half a unit of its last place at most. -/
private theorem exists_valueOf?_product_self {x : Float} {m : Nat} {e : Int} {c : ℚ} (h : IsCanonical m e)
    (hfull : 2 ^ 52 ≤ m) (hleast : -104 ≤ 2 * e) (hux : x.toModel.unpack = .finite .positive m e h.pos)
    (hc : IsDouble c) (hle : (m * 2 ^ e : ℚ) * (m * 2 ^ e) ≤ c) :
    ∃ p, valueOf? (x * x) = some p ∧ KeepsSides ((m * 2 ^ e : ℚ) * (m * 2 ^ e) : ℚ) p ∧
      |(p : ℝ) - (m * 2 ^ e) ^ 2| ≤ 2 ^ 52 * (2 ^ e) ^ 2 := by
  have hunpack := unpack_mul x x
  simp only [hux, UnpackedFloat.mul] at hunpack
  have hexact : ((m * 2 ^ e : ℝ)) ^ 2 / 2 ^ (e + e) = (m * m : Nat) := by
    rw [div_eq_iff (real_zpow_pos _).ne', zpow_add₀ two_ne_zero]
    push_cast
    ring
  have hlog : (m * m).log2 ≤ 105 := by
    have hlt : m * m < 2 ^ 106 := (Nat.mul_lt_mul'' h.lt h.lt).trans_eq (Nat.pow_add 2 53 53).symm
    exact Nat.lt_succ_iff.1 ((Nat.log2_lt (Nat.mul_pos h.pos h.pos).ne').2 hlt)
  have hwide : 2 ^ 52 ≤ m * m := hfull.trans (Nat.le_mul_of_pos_right _ h.pos)
  obtain ⟨n, t, hn, hsides, _, hnear, hround⟩ := exists_nearest rfl (fits_of_full (.inl hwide)) (hexact ▸ splits_exact _)
  have hle' : (m * 2 ^ e : ℝ) ^ 2 ≤ c := by
    rw [← cast_mul_zpow, pow_two]
    exact_mod_cast hle
  have hvalue := valueOf?_of_keepsSides (hunpack.trans (by rw [← hround]; rfl)) hn hsides hc
    ((mul_self_nonneg _).trans hle) hle'
  refine ⟨_, hvalue, ?_, ?_⟩
  · rw [cast_mul_zpow]
    push_cast
    rwa [← pow_two]
  · rw [cast_mul_zpow]
    refine hnear.trans ?_
    rw [targetExponent_eq]
    have hunit : max (((m * m).log2 : Int) + 1 + (e + e) - 53) (-1074) ≤ 53 + (e + e) := by omega
    calc (2 : ℝ) ^ max (((m * m).log2 : Int) + 1 + (e + e) - 53) (-1074) / 2
      _ ≤ 2 ^ (53 + (e + e)) / 2 := by gcongr; exact one_le_two
      _ = 2 ^ 52 * (2 ^ e) ^ 2 := by
        rw [zpow_add₀ two_ne_zero, zpow_add₀ two_ne_zero]
        norm_num
        ring

/-- A double other than a power of two is the only one that is less than a unit of its last place away. -/
private theorem eq_of_abs_sub_lt {m n : Nat} {e f : Int} (hn : IsCanonical n f) (hm : 2 ^ 52 < m)
    (h : |(n * 2 ^ f : ℝ) - m * 2 ^ e| < 2 ^ e) : (n * 2 ^ f : ℝ) = m * 2 ^ e := by
  have hpow := real_zpow_pos e
  rcases Int.lt_or_le f e with hlt | hle
  · have hsmall := canonical_lt_of_exponent_lt (K := ℝ) hn hlt (le_refl (2 ^ 52))
    have hstep : ((2 ^ 52 : Nat) + 1) * 2 ^ e ≤ (m * 2 ^ e : ℝ) := by
      gcongr
      exact_mod_cast hm
    have hlow := (abs_lt.1 h).1
    linarith
  · rw [canonical_eq_mul hle] at h ⊢
    rw [← sub_mul, abs_mul, abs_of_pos hpow, mul_lt_iff_lt_one_left hpow] at h
    have hsame : ((n * 2 ^ (f - e).toNat : Nat) : ℤ) - m = 0 := Int.abs_lt_one_iff.1 (by exact_mod_cast h)
    rw [(by omega : n * 2 ^ (f - e).toNat = m)]

theorem lt_two_pow_of_isDouble {c : ℚ} (h : IsDouble c) : c < 2 ^ 1024 := by
  obtain ⟨x, hx⟩ := h
  rcases le_or_gt c 0 with hc | hc
  · exact hc.trans_lt (by positivity)
  · obtain ⟨_, _, rfl⟩ | ⟨m, e, hm, _, rfl⟩ := cases_of_nonneg hx hc.le
    · exact absurd hc (lt_irrefl _)
    · have hlt : (m : ℚ) < 2 ^ 53 := by exact_mod_cast hm.lt
      have hle : (2 : ℚ) ^ e ≤ 2 ^ (971 : Int) := zpow_le_zpow_right₀ one_le_two hm.greatest
      calc (m : ℚ) * 2 ^ e
        _ < 2 ^ 53 * 2 ^ e := by gcongr
        _ ≤ 2 ^ 53 * 2 ^ (971 : Int) := by gcongr
        _ = 2 ^ 1024 := by rw [← zpow_natCast, ← zpow_natCast, ← zpow_add₀ two_ne_zero]; rfl

private theorem isDouble_two_zpow {k : Int} (hk : -1022 ≤ k) {c : ℚ} (hc : IsDouble c) (hle : 2 ^ k ≤ c) :
    IsDouble (2 ^ k) := by
  have hlt : k < 1024 := by
    have := hle.trans_lt (lt_two_pow_of_isDouble hc)
    rw [← zpow_natCast] at this
    exact (zpow_lt_zpow_iff_right₀ one_lt_two).1 this
  have hcanonical : IsCanonical (2 ^ 52) (k - 52) := ⟨by omega, by omega, by omega, by omega, .inl le_rfl⟩
  have hvalue : (2 : ℚ) ^ k = (2 ^ 52 : Nat) * 2 ^ (k - 52) := by
    rw [Nat.cast_pow, Nat.cast_ofNat, ← zpow_natCast, ← zpow_add₀ two_ne_zero]
    congr 1
    omega
  exact hvalue ▸ isDouble_of_isCanonical hcanonical

/-- If a square is rounded by half a unit, its root is off by less than half a unit of the number itself. -/
private theorem abs_sqrt_sub_lt {p y u : ℝ} (hu : 0 < u) (hy : 2 ^ 52 * u < y) (hp : (2 ^ 52 * u) ^ 2 ≤ p)
    (h : |p - y ^ 2| ≤ 2 ^ 52 * u ^ 2) : |√p - y| < u / 2 := by
  have hroot : 2 ^ 52 * u ≤ √p := Real.le_sqrt_of_sq_le hp
  have hsum : 0 < √p + y := by
    have : 0 < 2 ^ 52 * u := by positivity
    linarith
  have hfactors : |√p - y| * (√p + y) = |p - y ^ 2| := by
    conv => lhs; rw [← abs_of_pos hsum, ← abs_mul]
    congr 1
    have := Real.sq_sqrt ((sq_nonneg _).trans hp)
    linear_combination this
  by_contra hge
  rw [not_lt] at hge
  have hbig : u / 2 * (√p + y) ≤ |√p - y| * (√p + y) := by gcongr
  nlinarith

/-- Of the doubles only the number itself is as near to the root of its rounded square, if it is no power of two. -/
private theorem eq_of_near_root {x : Float} {v p : ℚ} {m : Nat} {e : Int} (hm : 2 ^ 52 < m) (hv : valueOf? x = some v)
    (hnonneg : 0 ≤ v) (hp : ((2 ^ 52 * 2 ^ e) ^ 2 : ℝ) ≤ p) (hsquare : |(p : ℝ) - (m * 2 ^ e) ^ 2| ≤ 2 ^ 52 * (2 ^ e) ^ 2)
    (hnearest : IsNearest (√p) v) (hdouble : IsDouble (m * 2 ^ e)) : v = m * 2 ^ e := by
  have hpow := real_zpow_pos e
  have hm' : (2 ^ 52 : ℝ) < m := by exact_mod_cast hm
  have hoff := abs_sqrt_sub_lt hpow (mul_lt_mul_of_pos_right hm' hpow) hp hsquare
  have hclose : |(v : ℝ) - m * 2 ^ e| < 2 ^ e := by
    have hv_near := hnearest hdouble
    rw [cast_mul_zpow, abs_sub_comm (m * 2 ^ e : ℝ)] at hv_near
    have := abs_sub_le (v : ℝ) (√p) (m * 2 ^ e)
    linarith
  obtain ⟨_, _, rfl⟩ | ⟨n, f, hn, _, rfl⟩ := cases_of_nonneg hv hnonneg
  · have hlow := (abs_lt.1 hclose).1
    rw [Rat.cast_zero] at hlow
    nlinarith
  · rw [cast_mul_zpow] at hclose
    have hsame := eq_of_abs_sub_lt hn hm hclose
    rw [← cast_mul_zpow, ← cast_mul_zpow] at hsame
    exact_mod_cast hsame

/-- The root of a square is the number itself, for a number from 1 on whose square is not infinite. -/
theorem sqrt_mul_self {x : Float} {a c : ℚ} (hx : valueOf? x = some a) (hone : 1 ≤ a) (hc : IsDouble c)
    (hle : a * a ≤ c) : (x * x).sqrt = x := by
  obtain ⟨_, _, rfl⟩ | ⟨m, e, h, hux, rfl⟩ := cases_of_nonneg hx (zero_le_one.trans hone)
  · exact absurd hone (by norm_num)
  have hleast := exponent_of_one_le h hone
  have hfull : 2 ^ 52 ≤ m := h.full.resolve_right (by omega)
  obtain ⟨p, hp, hsides, hnear⟩ := exists_valueOf?_product_self h hfull (by omega) hux hc hle
  -- the square of the power of two that is not above the number
  have hpower : (2 : ℚ) ^ (104 + 2 * e) = (2 ^ 52 * 2 ^ e) ^ 2 := by
    rw [zpow_add₀ two_ne_zero, zpow_mul', mul_pow]
    norm_num
  have hbelow : (2 : ℚ) ^ (104 + 2 * e) ≤ m * 2 ^ e * (m * 2 ^ e) := by
    have hm : (2 ^ 52 : ℚ) ≤ m := by exact_mod_cast hfull
    rw [hpower, ← pow_two]
    gcongr
  have hdouble := isDouble_two_zpow (by omega) hc (hbelow.trans hle)
  obtain ⟨v, hv, hroot, hnearest⟩ := exists_nearest_sqrt hp (by exact_mod_cast hsides.nonneg)
  suffices hsame : v = m * 2 ^ e by
    rw [hsame] at hv
    exact eq_of_valueOf?_eq hv hx (zero_lt_one.trans_le hone).ne'
  rcases hfull.eq_or_lt with rfl | hgt
  · -- the square of a power of two is one itself, and neither it nor its root is rounded
    have hsquare : ((2 ^ 52 : Nat) : ℚ) * 2 ^ e * ((2 ^ 52 : Nat) * 2 ^ e) = 2 ^ (104 + 2 * e) := by
      rw [hpower, Nat.cast_pow, Nat.cast_ofNat, pow_two]
    rw [hsquare] at hsides
    rw [hsides.eq_of_isDouble hdouble (zpow_two_pos _).le, ← hsquare, Rat.cast_mul, Real.sqrt_mul_self] at hroot
    · exact hroot.eq_of_isDouble ⟨_, hx⟩ (zero_le_one.trans hone)
    · exact_mod_cast zero_le_one.trans hone
  · have hp_le : ((2 ^ 52 * 2 ^ e) ^ 2 : ℝ) ≤ p := by
      have habove := hsides.le_of_ge hdouble hbelow
      rw [hpower] at habove
      calc ((2 ^ 52 * 2 ^ e) ^ 2 : ℝ)
        _ = ((2 ^ 52 * 2 ^ e) ^ 2 : ℚ) := by push_cast; rfl
        _ ≤ p := by exact_mod_cast habove
    exact eq_of_near_root hgt hv (by exact_mod_cast hroot.nonneg) hp_le hnear hnearest ⟨_, hx⟩

end Likeness
