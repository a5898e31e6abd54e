import Likeness.Proofs.Rounding

/-!
# Rounding to the nearest

Rounding does not only keep the side of every double, it also leads to the nearest one.

* (mantissas) residual bits that tell where the middle of the way to the next mantissa is (`Splits`) remain when a mantissa
  is shifted (`Splits.shiftRight`), and rounding goes at most half the way (`Splits.abs_rounded_sub_le`).
* (doubles) `IsNearest` says that no double is nearer, and `exists_nearest` that rounding leads to such a double.
* (sums) `exists_nearest_add` is the law for the sum of numbers that are not negative.  A sum of many small numbers does not
  grow beyond a power of two that is large enough (`exists_valueOf?_add_small`).
-/

namespace Likeness

open Float.Model
open Float.Model.UnpackedFloat hiding round normalize

/-! ### Mantissas -/

/-- A mantissa whose residual bits tell on which side of the middle to the next mantissa a number lies. -/
structure Splits (em : ExtendedMantissa) (r : ℝ) : Prop extends Holds em r where
  low : em.roundBit = false → r < em.mantissa + 1 / 2
  high : em.roundBit = true → em.mantissa + 1 / 2 ≤ r
  middle : em.roundBit = true → em.stickyBit = false → r = em.mantissa + 1 / 2

theorem splits_exact (m : Nat) : Splits (.ofMantissaAndAccuracy m .exact) m where
  toHolds := holds_exact m
  low _ := lt_add_of_pos_right _ one_half_pos
  high h := by cases h
  middle h := by cases h

theorem splits_below {m : Nat} {r : ℝ} (hle : m < r) (hlt : r < m + 1 / 2) :
    Splits (.ofMantissaAndAccuracy m (.inexact .lt)) r where
  toHolds := holds_inexact .lt hle (by linarith)
  low _ := hlt
  high h := by cases h
  middle h := by cases h

theorem splits_above {m : Nat} {r : ℝ} (hle : m + 1 / 2 < r) (hlt : r < m + 1) :
    Splits (.ofMantissaAndAccuracy m (.inexact .gt)) r where
  toHolds := holds_inexact .gt (by linarith) hlt
  low h := by cases h
  high _ := hle.le
  middle _ h := by cases h

/-- The bit that is cut off tells on which side of the middle a number lies, whatever the bits after it do. -/
theorem Holds.splits_shiftRightOne {em : ExtendedMantissa} {r : ℝ} (h : Holds em r) : Splits em.shiftRightOne (r / 2) := by
  have hdiv : (em.mantissa : ℝ) = 2 * (em.mantissa / 2 : Nat) + (em.mantissa % 2 : Nat) := by
    exact_mod_cast (Nat.div_add_mod em.mantissa 2).symm
  have hle := h.le
  have hlt := h.lt
  rcases Nat.mod_two_eq_zero_or_one em.mantissa with hmod | hmod
  · rw [hmod, Nat.cast_zero, add_zero] at hdiv
    refine ⟨h.shiftRightOne, ?_, ?_, ?_⟩ <;> simp only [ExtendedMantissa.shiftRightOne, hmod]
    · intro _
      linarith
    · intro hbit
      cases hbit
    · intro hbit
      cases hbit
  · rw [hmod, Nat.cast_one] at hdiv
    refine ⟨h.shiftRightOne, ?_, ?_, ?_⟩ <;> simp only [ExtendedMantissa.shiftRightOne, hmod]
    · intro hbit
      cases hbit
    · intro _
      linarith
    · intro _ hsticky
      have hexact := h.exact_iff.1 hsticky
      linarith

theorem Splits.shiftRight {em : ExtendedMantissa} {r : ℝ} (h : Splits em r) (k : Nat) : Splits (em >>> k) (r / 2 ^ k) := by
  cases k with
  | zero =>
    rw [pow_zero, div_one]
    exact h
  | succ k =>
    rw [pow_succ, ← div_div]
    exact (h.toHolds.shiftRight k).splits_shiftRightOne

/-- Rounding goes at most half the way to the next mantissa. -/
theorem Splits.abs_rounded_sub_le {em : ExtendedMantissa} {r : ℝ} (h : Splits em r) :
    |(em.roundedMantissa : ℝ) - r| ≤ 1 / 2 := by
  obtain ⟨⟨hle, hlt, hexact⟩, hlow, hhigh, hmiddle⟩ := h
  obtain ⟨m, round, sticky⟩ := em
  cases round with
  | false =>
    have hrounded : (ExtendedMantissa.mk m false sticky).roundedMantissa = m := by cases sticky <;> rfl
    have hbelow := hlow rfl
    rw [hrounded, abs_sub_comm, abs_of_nonneg (sub_nonneg.2 hle)]
    dsimp only at hbelow
    linarith
  | true =>
    have habove := hhigh rfl
    dsimp only at habove hlt
    cases sticky with
    | false =>
      have hr := hmiddle rfl rfl
      have hrounded : (ExtendedMantissa.mk m true false).roundedMantissa = m + m % 2 := rfl
      rw [hrounded, hr]
      rcases Nat.mod_two_eq_zero_or_one m with hmod | hmod <;> rw [hmod] <;> push_cast <;> rw [abs_le] <;>
        constructor <;> linarith
    | true =>
      have hrounded : (ExtendedMantissa.mk m true true).roundedMantissa = m + 1 := rfl
      rw [hrounded, abs_le]
      push_cast
      constructor <;> linarith

/-- No whole number is nearer than the rounded mantissa. -/
theorem Splits.abs_rounded_sub_le_abs {em : ExtendedMantissa} {r : ℝ} (h : Splits em r) (k : Nat) :
    |(em.roundedMantissa : ℝ) - r| ≤ |k - r| := by
  rcases eq_or_ne em.roundedMantissa k with hsame | hne
  · rw [hsame]
  · have hhalf := h.abs_rounded_sub_le
    -- two whole numbers are at least 1 apart, and one of them is within one half
    have hapart : (1 : ℝ) ≤ |(em.roundedMantissa : ℝ) - k| := by
      have hint : (em.roundedMantissa : ℤ) - k ≠ 0 := by omega
      exact_mod_cast Int.one_le_abs hint
    have htriangle := abs_sub_le (em.roundedMantissa : ℝ) r k
    rw [abs_sub_comm r] at htriangle
    linarith

/-! ### Doubles -/

/-- A number that no double is nearer to another one than. -/
def IsNearest (r v : ℝ) : Prop :=
  ∀ {c : ℚ}, IsDouble c → |v - r| ≤ |c - r|

private theorem isNearest_rounded {em : ExtendedMantissa} {r : ℝ} {t : Int} (h : Splits em (r / 2 ^ t))
    (hfull : 2 ^ 52 ≤ em.mantissa ∨ t = -1074) : IsNearest r (em.roundedMantissa * 2 ^ t) := by
  have hpow := real_zpow_pos t
  have hscale : ∀ a : ℝ, |a * 2 ^ t - r| = |a - r / 2 ^ t| * 2 ^ t := fun a => by
    rw [← abs_of_pos hpow, ← abs_mul, abs_of_pos hpow, sub_mul, div_mul_cancel₀ _ hpow.ne']
  have hbelow : (em.mantissa : ℝ) * 2 ^ t ≤ r := (le_div_iff₀ hpow).1 h.le
  have hmantissa : |(em.roundedMantissa : ℝ) * 2 ^ t - r| ≤ r - em.mantissa * 2 ^ t := by
    rw [hscale, ← abs_of_nonneg (sub_nonneg.2 hbelow), abs_sub_comm r, hscale]
    exact mul_le_mul_of_nonneg_right (h.abs_rounded_sub_le_abs _) hpow.le
  -- a double below the mantissa is farther away than the mantissa is
  have hfar : ∀ c : ℝ, c ≤ em.mantissa * 2 ^ t → |(em.roundedMantissa : ℝ) * 2 ^ t - r| ≤ |c - r| := fun c hc => by
    have hfrom : r - c ≤ |c - r| := by
      rw [abs_sub_comm]
      exact le_abs_self _
    linarith
  rintro c ⟨x, hx⟩
  rcases le_or_gt c 0 with hc | hc
  · refine hfar c (le_trans ?_ (by positivity : (0 : ℝ) ≤ em.mantissa * 2 ^ t))
    exact_mod_cast hc
  · obtain ⟨_, _, rfl⟩ | ⟨m, e, hm, _, rfl⟩ := cases_of_nonneg hx hc.le
    · exact absurd hc (lt_irrefl _)
    · rw [cast_mul_zpow]
      rcases Int.lt_or_le e t with hlt | hle
      · have hn := hfull.resolve_right (by have := hm.least; omega)
        exact hfar _ (canonical_lt_of_exponent_lt hm hlt hn).le
      · rw [canonical_eq_mul hle, hscale, hscale]
        exact mul_le_mul_of_nonneg_right (h.abs_rounded_sub_le_abs _) hpow.le

/-- What a number is rounded to is a nearest double, at most half a unit away. -/
theorem exists_nearest {m : Nat} {e t : Int} {acc : Accuracy} {r : ℝ}
    (ht : t = Format.binary64.targetExponent (totalExponent m e)) (hfit : e ≤ t)
    (h : Splits (.ofMantissaAndAccuracy m acc) (r / 2 ^ e)) :
    ∃ n t', IsScaled n t' ∧ KeepsSides r (n * 2 ^ t') ∧ IsNearest r (n * 2 ^ t') ∧ |n * 2 ^ t' - r| ≤ 2 ^ t / 2 ∧
      ∀ s, roundWithAccuracy Format.binary64 s m e acc = scaled s n t' := by
  obtain ⟨hfull, n, t', hn, hvalue, hround⟩ := @exists_scaled m e t acc ht hfit
  have hsplits : Splits (ExtendedMantissa.ofMantissaAndAccuracy m acc >>> (t - e).toNat) (r / 2 ^ t) := by
    rw [div_two_zpow hfit]
    exact h.shiftRight _
  refine ⟨n, t', hn, hvalue ▸ keepsSides_rounded hsplits.toHolds hfull, hvalue ▸ isNearest_rounded hsplits hfull, ?_, hround⟩
  have hpow := real_zpow_pos t
  have hhalf := hsplits.abs_rounded_sub_le
  rw [hvalue]
  calc |((ExtendedMantissa.ofMantissaAndAccuracy m acc >>> (t - e).toNat).roundedMantissa : ℝ) * 2 ^ t - r|
    _ = |((ExtendedMantissa.ofMantissaAndAccuracy m acc >>> (t - e).toNat).roundedMantissa : ℝ) - r / 2 ^ t| * 2 ^ t := by
      rw [← abs_of_pos hpow, ← abs_mul, abs_of_pos hpow, sub_mul, div_mul_cancel₀ _ hpow.ne']
    _ ≤ 1 / 2 * 2 ^ t := by gcongr
    _ = 2 ^ t / 2 := by ring

/-! ### Sums -/

/-- A whole multiple of the least unit is a double if it has few bits. -/
private theorem isDouble_of_log2_add_lt {m : Nat} {e : Int} (hm : 0 < m) (hleast : -1074 ≤ e)
    (hlog : (m.log2 : Int) + e < -1022) : IsDouble (m * 2 ^ e) := by
  obtain ⟨k, hk⟩ : ∃ k : Nat, e = k + -1074 := ⟨(e + 1074).toNat, by omega⟩
  have hlt : m * 2 ^ k < 2 ^ 53 := by
    refine (Nat.log2_lt (Nat.mul_pos hm (Nat.two_pow_pos k)).ne').1 ?_
    rw [log2_mul_two_pow hm]
    omega
  have hcanonical : IsCanonical (m * 2 ^ k) (-1074) :=
    ⟨Nat.mul_pos hm (Nat.two_pow_pos k), hlt, le_rfl, by omega, .inr rfl⟩
  have hvalue : (m * 2 ^ e : ℚ) = (m * 2 ^ k : Nat) * 2 ^ (-1074 : Int) := by
    rw [hk, zpow_add₀ two_ne_zero, zpow_natCast, Nat.cast_mul, Nat.cast_pow, Nat.cast_ofNat, mul_assoc]
  exact hvalue ▸ isDouble_of_isCanonical hcanonical

/-- A whole multiple of the least unit is rounded to a nearest double, and is off by one part in 2^53 at most. -/
private theorem exists_nearest_round {m : Nat} {e : Int} (hm : 0 < m) (hleast : -1074 ≤ e) :
    ∃ n t, IsScaled n t ∧ KeepsSides (m * 2 ^ e) (n * 2 ^ t) ∧ IsNearest (m * 2 ^ e) (n * 2 ^ t) ∧
      |(n * 2 ^ t - m * 2 ^ e : ℝ)| ≤ m * 2 ^ e / 2 ^ 53 ∧
      ∀ s, UnpackedFloat.round Format.binary64 s m e = scaled s n t := by
  obtain ⟨t, ht⟩ : ∃ t, t = Format.binary64.targetExponent (totalExponent m e) := ⟨_, rfl⟩
  have hsame : totalExponent (decreaseExponent m e t).1 (decreaseExponent m e t).2 = totalExponent m e := by
    simp only [totalExponent, decreaseExponent, Nat.shiftLeft_eq, log2_mul_two_pow hm]
    omega
  have hvalue : (m * 2 ^ e : ℝ) / 2 ^ (decreaseExponent m e t).2 = (decreaseExponent m e t).1 := by
    rw [div_eq_iff (real_zpow_pos _).ne', ← cast_mul_zpow, ← cast_mul_zpow, decreaseExponent_value]
  have hfit : (decreaseExponent m e t).2 ≤ Format.binary64.targetExponent
      (totalExponent (decreaseExponent m e t).1 (decreaseExponent m e t).2) := by
    rw [hsame, ← ht, decreaseExponent_snd]
    exact Int.min_le_right _ _
  obtain ⟨n, t', hn, hsides, hnearest, hnear, hround⟩ := exists_nearest rfl hfit (hvalue ▸ splits_exact _)
  refine ⟨n, t', hn, hsides, hnearest, ?_, fun s => ?_⟩
  · rw [hsame, targetExponent_eq] at hnear
    rcases Int.lt_or_le ((m.log2 : Int) + e) (-1022) with hsmall | hlarge
    · -- there is nothing to round
      have hexact := hnearest (isDouble_of_log2_add_lt hm hleast hsmall)
      rw [cast_mul_zpow, sub_self, abs_zero] at hexact
      exact hexact.trans (by positivity)
    · have hlog : (2 : ℝ) ^ m.log2 ≤ m := by exact_mod_cast Nat.log2_self_le hm.ne'
      rw [max_eq_left (by omega)] at hnear
      calc |(n * 2 ^ t' - m * 2 ^ e : ℝ)|
        _ ≤ (2 : ℝ) ^ ((m.log2 : Int) + 1 + e - 53) / 2 := hnear
        _ = 2 ^ m.log2 * 2 ^ e / 2 ^ 53 := by
          rw [zpow_sub₀ two_ne_zero, zpow_add₀ two_ne_zero, zpow_add_one₀ two_ne_zero, zpow_natCast]
          norm_num
          ring
        _ ≤ m * 2 ^ e / 2 ^ 53 := by gcongr
  · simp only [UnpackedFloat.round, ← ht]
    exact hround s

theorem IsNearest.refl (r : ℝ) : IsNearest r r := fun _ => by
  rw [sub_self, abs_zero]
  exact abs_nonneg _

/-- What the sum of two numbers above zero is rounded to, be it too great for a double or not. -/
theorem exists_scaled_add {x y : Float} {a b : ℚ} (hx : valueOf? x = some a) (hy : valueOf? y = some b) (ha : 0 < a)
    (hb : 0 < b) :
    ∃ n t, IsScaled n t ∧ KeepsSides (a + b : ℚ) (n * 2 ^ t) ∧ IsNearest (a + b : ℚ) (n * 2 ^ t) ∧
      |(n * 2 ^ t - (a + b : ℚ) : ℝ)| ≤ (a + b : ℚ) / 2 ^ 53 ∧
      (x + y).toModel.unpack = unpack Format.binary64 (pack Format.binary64 (scaled .positive n t)) := by
  obtain ⟨_, _, rfl⟩ | ⟨m₁, e₁, h₁, hux, rfl⟩ := cases_of_nonneg hx ha.le
  · exact absurd ha (lt_irrefl _)
  obtain ⟨_, _, rfl⟩ | ⟨m₂, e₂, h₂, huy, rfl⟩ := cases_of_nonneg hy hb.le
  · exact absurd hb (lt_irrefl _)
  let e := min e₁ e₂
  let m := (decreaseExponent m₁ e₁ e).1 + (decreaseExponent m₂ e₂ e).1
  have hpos : 0 < m := by
    have : 0 < (decreaseExponent m₁ e₁ e).1 := by
      simp only [decreaseExponent, Nat.shiftLeft_eq]
      exact Nat.mul_pos h₁.pos (Nat.two_pow_pos _)
    omega
  have hunpack : (x + y).toModel.unpack = unpack Format.binary64 (pack Format.binary64
      (UnpackedFloat.round Format.binary64 .positive m e)) := by
    rw [unpack_add, hux, huy, ← normalize_signed hpos .positive .positive]
    rfl
  have hsum : ((m₁ * 2 ^ e₁ + m₂ * 2 ^ e₂ : ℚ) : ℝ) = m * 2 ^ e := by
    have h₁ := decreaseExponent_value m₁ e₁ e
    have h₂ := decreaseExponent_value m₂ e₂ e
    rw [decreaseExponent_snd, Int.min_eq_right (Int.min_le_left e₁ e₂)] at h₁
    rw [decreaseExponent_snd, Int.min_eq_right (Int.min_le_right e₁ e₂)] at h₂
    rw [← h₁, ← h₂, ← add_mul]
    push_cast [m]
    rfl
  obtain ⟨n, t, hn, hsides, hnearest, hnear, hround⟩ :=
    exists_nearest_round hpos (le_min h₁.least h₂.least : -1074 ≤ e)
  rw [hround] at hunpack
  rw [hsum]
  exact ⟨n, t, hn, hsides, hnearest, hnear, hunpack⟩

/-- The sum of two numbers that are not negative is rounded to a nearest double.  Some double above it is asked for, so that
it is not infinite. -/
theorem exists_nearest_add {x y : Float} {a b c : ℚ} (hx : valueOf? x = some a) (hy : valueOf? y = some b)
    (ha : 0 ≤ a) (hb : 0 ≤ b) (hc : IsDouble c) (hle : a + b ≤ c) :
    ∃ v, valueOf? (x + y) = some v ∧ KeepsSides (a + b : ℚ) v ∧ IsNearest (a + b : ℚ) v := by
  rcases ha.eq_or_lt with rfl | hpos_a
  · refine ⟨b, by simpa using valueOf?_add hx hy (by rw [zero_add]; exact hy), ?_⟩
    rw [zero_add]
    exact ⟨KeepsSides.refl (by exact_mod_cast hb), IsNearest.refl _⟩
  rcases hb.eq_or_lt with rfl | hpos_b
  · refine ⟨a, by simpa using valueOf?_add hx hy (by rw [add_zero]; exact hx), ?_⟩
    rw [add_zero]
    exact ⟨KeepsSides.refl (by exact_mod_cast ha), IsNearest.refl _⟩
  obtain ⟨n, t, hn, hsides, hnearest, _, hunpack⟩ := exists_scaled_add hx hy hpos_a hpos_b
  have hvalue := valueOf?_of_keepsSides hunpack hn hsides hc ((add_nonneg ha hb).trans hle) (by exact_mod_cast hle)
  exact ⟨_, hvalue, by rwa [cast_mul_zpow n t], by rwa [cast_mul_zpow n t]⟩

/-- Between a power of two and the next double above it there is a unit. -/
private theorem add_unit_le {c : ℚ} {k : Nat} (hc : IsDouble c) (h : 2 ^ (52 + k) < c) : 2 ^ (52 + k) + 2 ^ k ≤ c := by
  obtain ⟨x, hx⟩ := hc
  obtain ⟨_, _, rfl⟩ | ⟨m, e, hm, _, rfl⟩ := cases_of_nonneg hx ((by positivity : (0 : ℚ) ≤ 2 ^ (52 + k)).trans h.le)
  · exact absurd h (not_lt.2 (by positivity))
  · have hpow : (0 : ℚ) < 2 ^ k := by positivity
    rw [pow_add] at h ⊢
    rcases Int.lt_or_le e k with hlt | hle
    · have hbelow := canonical_lt_of_exponent_lt (K := ℚ) hm hlt (le_refl (2 ^ 52))
      rw [zpow_natCast] at hbelow
      push_cast at hbelow
      exact absurd h (not_lt.2 hbelow.le)
    · -- the double is a whole multiple of the unit
      obtain ⟨n, hn⟩ : ∃ n : Nat, (m : ℚ) * 2 ^ e = n * 2 ^ k :=
        ⟨_, (canonical_eq_mul hle).trans (by rw [zpow_natCast])⟩
      rw [hn] at h ⊢
      have hmore : 2 ^ 52 + 1 ≤ n := by exact_mod_cast lt_of_mul_lt_mul_right h hpow.le
      have hmore' : (2 ^ 52 + 1 : ℚ) ≤ n := by exact_mod_cast hmore
      calc (2 : ℚ) ^ 52 * 2 ^ k + 2 ^ k
        _ = (2 ^ 52 + 1) * 2 ^ k := by ring
        _ ≤ n * 2 ^ k := by gcongr

/-- A sum that has come to a power of two does not grow by less than half a unit. -/
theorem exists_valueOf?_add_small {x y : Float} {a b c : ℚ} {k : Nat} (hx : valueOf? x = some a) (hy : valueOf? y = some b)
    (ha : 0 ≤ a) (hb : 0 ≤ b) (hc : IsDouble c) (hle : a + b ≤ c) (hbound : a ≤ 2 ^ (52 + k)) (hsmall : 2 * b < 2 ^ k) :
    ∃ v, valueOf? (x + y) = some v ∧ KeepsSides (a + b : ℚ) v ∧ v ≤ 2 ^ (52 + k) := by
  obtain ⟨v, hv, hsides, hnearest⟩ := exists_nearest_add hx hy ha hb hc hle
  refine ⟨v, hv, hsides, ?_⟩
  by_contra hgt
  have hfar := add_unit_le ⟨_, hv⟩ (not_le.1 hgt)
  -- the sum would be rounded past the double that it started from, which is nearer
  have hnear : v - (a + b) ≤ b := by
    have hstart : |(v : ℝ) - (a + b : ℚ)| ≤ |(a : ℝ) - (a + b : ℚ)| := hnearest ⟨_, hx⟩
    have hstart' : |v - (a + b)| ≤ |a - (a + b)| := by exact_mod_cast hstart
    rw [sub_add_cancel_left, abs_neg, abs_of_nonneg hb] at hstart'
    exact (le_abs_self _).trans hstart'
  linarith

end Likeness
