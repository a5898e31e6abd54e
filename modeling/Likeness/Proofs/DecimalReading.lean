import Likeness.Decimal.Shortest
import Mathlib

/-!
# Decimals that read back

The decimal that is chosen for a double reads back as this double.

* (quotients) `Magnitude.nearest` depends on the value of a quotient only, not on how it is written
  (`Magnitude.nearest_congr`), since the exponent is that of the value (`Magnitude.exponentOf_eq`).
* (exact values) a quotient that is the value of a magnitude is nearest to it (`Magnitude.nearest_of_value`).  So the exact
  decimal reads back (`Decimal.nearestMagnitude_exact`).
* (chosen decimals) a decimal is only chosen on a grid if it reads back, and otherwise the exact one is taken
  (`Decimal.nearestMagnitude_shortest`).
-/

namespace Likeness

/-! ### Quotients -/

private theorem roundDiv_mul_right (tie : Tie) (num den : Nat) {k : Nat} (hk : 0 < k) :
    roundDiv tie (num * k) (den * k) = roundDiv tie num den := by
  have hlow : num * k / (den * k) = num / den := Nat.mul_div_mul_right _ _ hk
  have htwice : 2 * (num * k % (den * k)) = 2 * (num % den) * k := by rw [Nat.mul_mod_mul_right, Nat.mul_assoc]
  simp only [roundDiv, hlow, htwice, Nat.mul_lt_mul_right hk]

/-- Rounding depends on the value of a quotient only. -/
theorem roundDiv_congr (tie : Tie) {num den num' den' : Nat} (hden : 0 < den) (hden' : 0 < den')
    (h : num * den' = num' * den) : roundDiv tie num den = roundDiv tie num' den' := by
  rw [← roundDiv_mul_right tie num den hden', h, Nat.mul_comm den, roundDiv_mul_right tie num' den' hden]

/-- A power as a quotient of powers with natural exponents. -/
theorem zpow_mul_pow_toNat {b : ℚ} (hb : b ≠ 0) (e : Int) : b ^ e * b ^ (-e).toNat = b ^ e.toNat := by
  rw [← zpow_natCast, ← zpow_natCast, ← zpow_add₀ hb]
  congr 1
  omega

namespace Magnitude

private theorem two_zpow_le_iff {num den : Nat} (hden : 0 < den) (e : Int) :
    (2 : ℚ) ^ e ≤ num / den ↔ den * 2 ^ e.toNat ≤ num * 2 ^ (-e).toNat := by
  have hden' : (0 : ℚ) < den := by exact_mod_cast hden
  have hpow : (0 : ℚ) < 2 ^ (-e).toNat := by positivity
  rw [le_div_iff₀ hden', ← mul_le_mul_iff_left₀ hpow, mul_right_comm, zpow_mul_pow_toNat two_ne_zero, mul_comm]
  exact_mod_cast Iff.rfl

private theorem reaches_iff {num den : Nat} (hden : 0 < den) (size : Int) :
    (if 0 ≤ size then decide (den * Nat.pow 2 size.toNat ≤ num) else decide (den ≤ num * Nat.pow 2 (-size).toNat)) = true ↔
      (2 : ℚ) ^ size ≤ num / den := by
  rw [two_zpow_le_iff hden]
  split
  · next hsize =>
    have hzero : (-size).toNat = 0 := by omega
    rw [hzero, decide_eq_true_iff, Nat.pow_zero, Nat.mul_one]
    rfl
  · next hsize =>
    have hzero : size.toNat = 0 := by omega
    rw [hzero, decide_eq_true_iff, Nat.pow_zero, Nat.mul_one]
    rfl

/-- A quotient is less than a factor of 2 away from the quotient of the leading powers. -/
private theorem log_div_bounds {num den : Nat} (hnum : 0 < num) (hden : 0 < den) {size : Int}
    (hsize : size = num.log2 - den.log2) :
    size - 1 ≤ Int.log 2 (num / den : ℚ) ∧ Int.log 2 (num / den : ℚ) < size + 1 := by
  have hpos : (0 : ℚ) < num / den := by positivity
  have hnum_low : (2 : ℚ) ^ num.log2 ≤ num := by exact_mod_cast Nat.log2_self_le hnum.ne'
  have hnum_high : (num : ℚ) < 2 ^ (num.log2 + 1) := by exact_mod_cast Nat.lt_log2_self
  have hden_low : (2 : ℚ) ^ den.log2 ≤ den := by exact_mod_cast Nat.log2_self_le hden.ne'
  have hden_high : (den : ℚ) < 2 ^ (den.log2 + 1) := by exact_mod_cast Nat.lt_log2_self
  have hden_pos : (0 : ℚ) < den := by exact_mod_cast hden
  have hhigh : (num / den : ℚ) < 2 ^ (size + 1) := by
    rw [div_lt_iff₀ hden_pos]
    calc (num : ℚ)
      _ < 2 ^ (num.log2 + 1) := hnum_high
      _ = 2 ^ (size + 1) * 2 ^ den.log2 := by
        rw [← zpow_natCast, ← zpow_natCast, ← zpow_add₀ two_ne_zero]
        congr 1
        omega
      _ ≤ 2 ^ (size + 1) * den := by gcongr
  have hlow : (2 : ℚ) ^ (size - 1) ≤ num / den := by
    rw [le_div_iff₀ hden_pos]
    calc (2 : ℚ) ^ (size - 1) * den
      _ ≤ 2 ^ (size - 1) * 2 ^ (den.log2 + 1) := by gcongr
      _ = 2 ^ num.log2 := by
        rw [← zpow_natCast, ← zpow_natCast, ← zpow_add₀ two_ne_zero]
        congr 1
        omega
      _ ≤ num := hnum_low
  exact ⟨(Int.zpow_le_iff_le_log one_lt_two hpos).1 hlow, (Int.lt_zpow_iff_log_lt one_lt_two hpos).1 hhigh⟩

/-- The exponent of a quotient is that of its value. -/
theorem exponentOf_eq {num den : Nat} (hnum : 0 < num) (hden : 0 < den) :
    exponentOf num den = max (-1074) (Int.log 2 (num / den : ℚ) - 52) := by
  have hpos : (0 : ℚ) < num / den := by positivity
  obtain ⟨size, hsize⟩ : ∃ size : Int, size = num.log2 - den.log2 := ⟨_, rfl⟩
  obtain ⟨hlow, hhigh⟩ := log_div_bounds hnum hden hsize
  have hreaches := (@reaches_iff num den hden size).trans (Int.zpow_le_iff_le_log one_lt_two hpos)
  unfold exponentOf
  rw [← hsize]
  dsimp only
  by_cases htest : (if 0 ≤ size then decide (den * Nat.pow 2 size.toNat ≤ num)
      else decide (den ≤ num * Nat.pow 2 (-size).toNat)) = true
  · have := hreaches.1 htest
    rw [if_pos htest]
    congr 1
    omega
  · have : ¬ size ≤ Int.log 2 (num / den : ℚ) := fun h => htest (hreaches.2 h)
    rw [if_neg htest]
    congr 1
    omega

private theorem div_eq_div_of_mul_eq {num den num' den' : Nat} (hden : 0 < den) (hden' : 0 < den')
    (h : num * den' = num' * den) : (num / den : ℚ) = num' / den' := by
  have hden_ne : (den : ℚ) ≠ 0 := by exact_mod_cast hden.ne'
  have hden_ne' : (den' : ℚ) ≠ 0 := by exact_mod_cast hden'.ne'
  rw [div_eq_div_iff hden_ne hden_ne']
  exact_mod_cast h

private theorem nearest_eq (num den : Nat) :
    let e := exponentOf num den
    nearest num den =
      min infinity ((e + 1074).toNat * 2 ^ 52 + roundDiv .toEven (num * 2 ^ (-e).toNat) (den * 2 ^ e.toNat)) := rfl

/-- The nearest magnitude depends on the value of a quotient only. -/
theorem nearest_congr {num den num' den' : Nat} (hnum : 0 < num) (hden : 0 < den) (hnum' : 0 < num') (hden' : 0 < den')
    (h : num * den' = num' * den) : nearest num den = nearest num' den' := by
  have hexponent : exponentOf num den = exponentOf num' den' := by
    rw [exponentOf_eq hnum hden, exponentOf_eq hnum' hden', div_eq_div_of_mul_eq hden hden' h]
  rw [nearest_eq, nearest_eq, hexponent]
  congr 2
  refine roundDiv_congr .toEven (Nat.mul_pos hden (Nat.two_pow_pos _)) (Nat.mul_pos hden' (Nat.two_pow_pos _)) ?_
  rw [Nat.mul_mul_mul_comm, h, Nat.mul_mul_mul_comm]

/-! ### Exact values -/

private theorem mantissa_eq (m : Nat) : mantissa m = if m < 2 ^ 52 then m else 2 ^ 52 + m % 2 ^ 52 := rfl

private theorem exponent_eq (m : Nat) : exponent m = if m < 2 ^ 52 then -1074 else ((m / 2 ^ 52 : Nat) : Int) - 1075 := rfl

theorem mantissa_pos {m : Nat} (h : m ≠ 0) : 0 < mantissa m := by
  rw [mantissa_eq]
  split <;> omega

private theorem mantissa_lt (m : Nat) : mantissa m < 2 ^ 53 := by
  rw [mantissa_eq]
  split <;> omega

/-- The mantissa of a magnitude carries into its exponent. -/
theorem exponent_add_mantissa (m : Nat) : (exponent m + 1074).toNat * 2 ^ 52 + mantissa m = m := by
  rw [mantissa_eq, exponent_eq]
  split <;> omega

/-- The exponent of the value of a magnitude is the magnitude's own. -/
private theorem max_log_value {m : Nat} (h : m ≠ 0) :
    max (-1074) (Int.log 2 (mantissa m * 2 ^ exponent m : ℚ) - 52) = exponent m := by
  have hpos : (0 : ℚ) < mantissa m * 2 ^ exponent m := mul_pos (by exact_mod_cast mantissa_pos h) (zpow_pos two_pos _)
  have hhigh : (mantissa m * 2 ^ exponent m : ℚ) < 2 ^ (53 + exponent m) := by
    rw [zpow_add₀ two_ne_zero]
    gcongr
    exact_mod_cast mantissa_lt m
  have hlog_high := (Int.lt_zpow_iff_log_lt one_lt_two hpos).1 hhigh
  have hmantissa := mantissa_eq m
  have hexponent := exponent_eq m
  split at hmantissa
  · next hsmall =>
    rw [if_pos hsmall] at hexponent
    omega
  · next hsmall =>
    rw [if_neg hsmall] at hexponent
    have hlow : (2 : ℚ) ^ (52 + exponent m) ≤ mantissa m * 2 ^ exponent m := by
      rw [zpow_add₀ two_ne_zero]
      gcongr
      exact_mod_cast (by omega : 2 ^ 52 ≤ mantissa m)
    have hlog_low := (Int.zpow_le_iff_le_log one_lt_two hpos).1 hlow
    omega

/-- A quotient that is the value of a finite magnitude is nearest to it. -/
theorem nearest_of_value {m : Magnitude} (h : m ≠ 0) (hfinite : m < infinity) {num den : Nat} (hnum : 0 < num)
    (hden : 0 < den) (hvalue : (num / den : ℚ) = m.mantissa * 2 ^ m.exponent) : nearest num den = m := by
  have hexponent : exponentOf num den = m.exponent := by rw [exponentOf_eq hnum hden, hvalue, max_log_value h]
  have hwhole : num * 2 ^ (-m.exponent).toNat = m.mantissa * (den * 2 ^ m.exponent.toNat) := by
    have hden_ne : (den : ℚ) ≠ 0 := by exact_mod_cast hden.ne'
    rw [div_eq_iff hden_ne] at hvalue
    have hpow := zpow_mul_pow_toNat (two_ne_zero : (2 : ℚ) ≠ 0) m.exponent
    have hrat : (num : ℚ) * 2 ^ (-m.exponent).toNat = m.mantissa * (den * 2 ^ m.exponent.toNat) := by
      rw [hvalue, ← hpow]
      ring
    exact_mod_cast hrat
  rw [nearest_eq, hexponent, hwhole, roundDiv_mul .toEven _ (Nat.mul_pos hden (Nat.two_pow_pos _)),
    exponent_add_mantissa]
  exact Nat.min_eq_right hfinite.le

/-- A double is its sign and its magnitude. -/
theorem toFloat_ofFloat (x : Float) : toFloat (isNegative x) (ofFloat x) = x := by
  have hsplit : ∀ n : Nat, n < 2 ^ 64 → (if decide (2 ^ 63 ≤ n) then 2 ^ 63 + n % 2 ^ 63 else n % 2 ^ 63) = n := by
    intro n hlt
    simp only [decide_eq_true_iff]
    split <;> omega
  have hparts : (if isNegative x then Nat.pow 2 63 + ofFloat x else ofFloat x) = x.toBits.toNat :=
    hsplit x.toBits.toNat x.toBits.toNat_lt
  rw [toFloat, hparts, UInt64.ofNat_toNat, Float.ofBits_toBits]

end Magnitude

/-! ### Chosen decimals -/

namespace Decimal

/-- A decimal whose exponent is not too large or too small is read by its value. -/
theorem nearestMagnitude_eq {d : Decimal} (hdigits : d.digits ≠ 0) (hlarge : d.exponent ≤ 400)
    (hsmall : -400 ≤ d.exponent + d.digits.log2) :
    d.nearestMagnitude = Magnitude.nearest (d.digits * (tenPow d.exponent).1) (tenPow d.exponent).2 := by
  rw [nearestMagnitude, if_neg hdigits, if_neg (Int.not_lt.2 hlarge), if_neg (Int.not_lt.2 hsmall)]

private theorem two_mul_le_log2 (n : Nat) {k : Nat} (hn : 0 < n) : 2 * k ≤ (n * 5 ^ k).log2 := by
  refine (Nat.le_log2 (Nat.mul_pos hn (Nat.pow_pos (by decide))).ne').2 ?_
  calc 2 ^ (2 * k)
    _ = 4 ^ k := Nat.pow_mul 2 2 k
    _ ≤ 5 ^ k := Nat.pow_le_pow_left (by decide) k
    _ ≤ n * 5 ^ k := Nat.le_mul_of_pos_left _ hn

theorem nearestMagnitude_exact {m : Magnitude} (h : m ≠ 0) (hfinite : m < Magnitude.infinity) :
    (exact m).nearestMagnitude = m := by
  have hmantissa := Magnitude.mantissa_pos h
  unfold exact
  split
  · next hexponent =>
    have hdigits : 0 < m.mantissa * Nat.pow 2 m.exponent.toNat := Nat.mul_pos hmantissa (Nat.two_pow_pos _)
    have hread := @nearestMagnitude_eq ⟨_, 0⟩ hdigits.ne' (by dsimp only; omega) (by dsimp only; omega)
    rw [hread]
    refine Magnitude.nearest_of_value h hfinite (Nat.mul_pos hdigits Nat.one_pos) Nat.one_pos ?_
    change ((m.mantissa * 2 ^ m.exponent.toNat * 1 : Nat) / (1 : Nat) : ℚ) = _
    have hpow : (2 : ℚ) ^ m.exponent = 2 ^ m.exponent.toNat := by
      rw [← zpow_natCast, Int.toNat_of_nonneg hexponent]
    rw [hpow]
    push_cast
    ring
  · next hexponent =>
    obtain ⟨k, hk⟩ : ∃ k : Nat, m.exponent = -k := ⟨(-m.exponent).toNat, by omega⟩
    have htoNat : (-m.exponent).toNat = k := by omega
    have hdigits : 0 < m.mantissa * 5 ^ k := Nat.mul_pos hmantissa (Nat.pow_pos (by decide))
    have hlog := two_mul_le_log2 m.mantissa (k := k) hmantissa
    rw [htoNat, hk]
    have hread := @nearestMagnitude_eq ⟨m.mantissa * 5 ^ k, -k⟩ hdigits.ne' (by dsimp only; omega) (by dsimp only; omega)
    change nearestMagnitude ⟨m.mantissa * 5 ^ k, -k⟩ = m
    rw [hread]
    have hten : tenPow (-(k : Int)) = (1, 10 ^ k) := by
      have hpos : (-(k : Int)).toNat = 0 := by omega
      have hneg : (-(-(k : Int))).toNat = k := by omega
      simp only [tenPow, hpos, hneg]
      rfl
    rw [hten]
    refine Magnitude.nearest_of_value h hfinite (Nat.mul_pos hdigits Nat.one_pos) (Nat.pow_pos (by decide)) ?_
    change ((m.mantissa * 5 ^ k * 1 : Nat) / (10 ^ k : Nat) : ℚ) = _
    rw [hk, zpow_neg, zpow_natCast, (by norm_num : 10 = 5 * 2), Nat.mul_pow]
    push_cast
    field_simp

private theorem nearestMagnitude_of_onGrid? {tie : Tie} {m : Magnitude} {e : Int} {d : Decimal}
    (h : onGrid? tie m e = some d) : d.nearestMagnitude = m := by
  unfold onGrid? at h
  obtain ⟨⟨num, den⟩, hunits⟩ : ∃ units, inUnits m e = units := ⟨_, rfl⟩
  rw [hunits] at h
  dsimp only at h
  split at h
  · next hlow hhigh =>
    cases h
    have hlow := of_decide_eq_true hlow
    have hhigh := of_decide_eq_true hhigh
    -- the rounded quotient is one of the two neighbours
    unfold roundDiv
    dsimp only
    split_ifs
    · exact hlow
    · exact hhigh
    · cases tie with
      | up => exact hhigh
      | toEven =>
        dsimp only
        rcases Nat.mod_two_eq_zero_or_one (num / den) with heven | hodd
        · rw [heven]
          exact hlow
        · rw [hodd]
          exact hhigh
  · next hlow _ =>
    cases h
    exact of_decide_eq_true hlow
  · next _ hhigh =>
    cases h
    exact of_decide_eq_true hhigh
  · cases h

/-- The decimal that is chosen for a finite magnitude reads back. -/
theorem nearestMagnitude_shortest (tie : Tie) {m : Magnitude} (hfinite : m < Magnitude.infinity) :
    (shortest tie m).nearestMagnitude = m := by
  unfold shortest
  split
  · next hzero => rw [hzero]; rfl
  · next hne =>
    cases hfound : (List.range 20).findSome? fun finer : Nat => onGrid? tie m (coarse m - finer) with
    | none => exact nearestMagnitude_exact hne hfinite
    | some d =>
      obtain ⟨finer, _, hgrid⟩ := List.exists_of_findSome?_eq_some hfound
      exact nearestMagnitude_of_onGrid? hgrid

end Decimal

end Likeness
