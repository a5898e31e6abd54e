import Likeness.Proofs.Doubles

/-!
# Rounding

Rounding never passes a double: the double that an operation gives lies on the same side of every double as the exact
result does.

* (mantissas) a mantissa with its residual bits `Holds` the number that was cut down to it; cutting off more bits keeps this
  (`Holds.shiftRight`), and rounding it stays below and above the same whole numbers (`Holds.rounded_le`, `Holds.le_rounded`).
* (doubles) `exists_rounded` carries this over from whole numbers to doubles, a carry of the rounding included.
* (operations) `exists_valueOf?_mul` is the law for factors that are not negative.  It asks for some double above the exact
  product, so that the result is not infinite.
-/

namespace Likeness

open Float.Model
open Float.Model.UnpackedFloat hiding round normalize

/-! ### Mantissas -/

/-- A mantissa holds a number that lies less than one above it, and that it is equal to if no residual bit is set. -/
structure Holds (em : ExtendedMantissa) (r : ℝ) : Prop where
  le : em.mantissa ≤ r
  lt : r < em.mantissa + 1
  exact_iff : (em.roundBit || em.stickyBit) = false ↔ r = em.mantissa

theorem holds_exact (m : Nat) : Holds (.ofMantissaAndAccuracy m .exact) m where
  le := le_rfl
  lt := lt_add_one _
  exact_iff := by simp [ExtendedMantissa.ofMantissaAndAccuracy]

theorem holds_inexact {m : Nat} {r : ℝ} (o : Ordering) (hle : m < r) (hlt : r < m + 1) :
    Holds (.ofMantissaAndAccuracy m (.inexact o)) r := by
  have hbits : ∀ o, (ExtendedMantissa.ofMantissaAndAccuracy m (.inexact o)).mantissa = m ∧
      ((ExtendedMantissa.ofMantissaAndAccuracy m (.inexact o)).roundBit ||
        (ExtendedMantissa.ofMantissaAndAccuracy m (.inexact o)).stickyBit) = true := by
    rintro (_ | _ | _) <;> exact ⟨rfl, rfl⟩
  obtain ⟨hm, hset⟩ := hbits o
  refine ⟨by rw [hm]; exact hle.le, by rw [hm]; exact hlt, ?_⟩
  rw [hset, hm]
  simp [hle.ne']

theorem Holds.shiftRightOne {em : ExtendedMantissa} {r : ℝ} (h : Holds em r) :
    Holds em.shiftRightOne (r / 2) := by
  obtain ⟨hle, hlt, hexact⟩ := h
  have hdiv : (em.mantissa : ℝ) = 2 * (em.mantissa / 2 : Nat) + (em.mantissa % 2 : Nat) := by
    exact_mod_cast (Nat.div_add_mod em.mantissa 2).symm
  rcases Nat.mod_two_eq_zero_or_one em.mantissa with hmod | hmod
  · -- the bit that is cut off is not set, so the number is exact if it was
    rw [hmod, Nat.cast_zero, add_zero] at hdiv
    refine ⟨?_, ?_, ?_⟩ <;> simp only [ExtendedMantissa.shiftRightOne]
    · linarith
    · linarith
    · simp only [hmod, bne_self_eq_false, Bool.false_or, hexact]
      constructor <;> intro <;> linarith
  · rw [hmod, Nat.cast_one] at hdiv
    refine ⟨?_, ?_, ?_⟩ <;> simp only [ExtendedMantissa.shiftRightOne]
    · linarith
    · linarith
    · have hne : r / 2 ≠ (em.mantissa / 2 : Nat) := fun hsame => by linarith
      simp [hmod, hne]

theorem Holds.shiftRight {em : ExtendedMantissa} {r : ℝ} (h : Holds em r) (k : Nat) :
    Holds (em >>> k) (r / 2 ^ k) := by
  induction k with
  | zero =>
    rw [pow_zero, div_one]
    exact h
  | succ k ih =>
    rw [pow_succ, ← div_div]
    exact ih.shiftRightOne

theorem mantissa_shiftRight (em : ExtendedMantissa) (k : Nat) : (em >>> k).mantissa = em.mantissa / 2 ^ k := by
  induction k with
  | zero => exact (Nat.div_one _).symm
  | succ k ih =>
    change (em >>> k).mantissa / 2 = _
    rw [ih, Nat.div_div_eq_div_mul, Nat.pow_succ]

theorem mantissa_ofMantissaAndAccuracy (m : Nat) (acc : Accuracy) :
    (ExtendedMantissa.ofMantissaAndAccuracy m acc).mantissa = m := by
  rcases acc with _ | (_ | _ | _) <;> rfl

theorem mantissa_le_rounded (em : ExtendedMantissa) : em.mantissa ≤ em.roundedMantissa := by
  obtain ⟨m, _ | _, _ | _⟩ := em <;>
    simp [ExtendedMantissa.roundedMantissa, ExtendedMantissa.accuracy, Accuracy.roundToNearestEven]

theorem rounded_le_succ (em : ExtendedMantissa) : em.roundedMantissa ≤ em.mantissa + 1 := by
  obtain ⟨m, _ | _, _ | _⟩ := em <;>
    simp [ExtendedMantissa.roundedMantissa, ExtendedMantissa.accuracy, Accuracy.roundToNearestEven]
  omega

private theorem rounded_of_exact {em : ExtendedMantissa} (h : (em.roundBit || em.stickyBit) = false) :
    em.roundedMantissa = em.mantissa := by
  obtain ⟨m, _ | _, _ | _⟩ := em <;> first | rfl | cases h

/-- Rounding does not pass a whole number from below. -/
theorem Holds.rounded_le {em : ExtendedMantissa} {r : ℝ} (h : Holds em r) {n : Nat} (hr : r ≤ n) :
    em.roundedMantissa ≤ n := by
  have hle : em.mantissa ≤ n := by exact_mod_cast h.le.trans hr
  by_cases hexact : (em.roundBit || em.stickyBit) = false
  · exact (rounded_of_exact hexact).trans_le hle
  · have hne : r ≠ em.mantissa := fun hsame => hexact (h.exact_iff.2 hsame)
    have hlt : em.mantissa < n := by exact_mod_cast (lt_of_le_of_ne h.le hne.symm).trans_le hr
    have := rounded_le_succ em
    omega

theorem Holds.le_rounded {em : ExtendedMantissa} {r : ℝ} (h : Holds em r) {n : Nat} (hr : n ≤ r) :
    n ≤ em.roundedMantissa := by
  have hlt : (n : ℝ) < (em.mantissa + 1 : Nat) := by
    push_cast
    exact hr.trans_lt h.lt
  have hle : n ≤ em.mantissa := by exact_mod_cast Nat.lt_succ_iff.1 (by exact_mod_cast hlt)
  exact hle.trans (mantissa_le_rounded em)

/-! ### Doubles -/

/-- A mantissa and exponent in canonical form, except that it may be zero and that the exponent may be too great. -/
structure IsScaled (n : Nat) (t : Int) : Prop where
  lt : n < 2 ^ 53
  least : -1074 ≤ t
  full : 2 ^ 52 ≤ n ∨ t = -1074

/-- Whether a number is a double. -/
def IsDouble (c : ℚ) : Prop :=
  ∃ x, valueOf? x = some c

theorem isDouble_zero : IsDouble 0 :=
  ⟨0.0, rfl⟩

theorem isDouble_of_isCanonical {m : Nat} {e : Int} (h : IsCanonical m e) : IsDouble (m * 2 ^ e) := by
  refine ⟨.ofModel (.pack (.finite .positive m e h.pos)), valueOf?_eq_some.2 (.inr ⟨.positive, m, e, h, ?_, ?_⟩)⟩
  · exact unpack_pack h .positive
  · simp [Sign.apply]

/-- A double that is not negative is zero or has a canonical form. -/
theorem cases_of_nonneg {x : Float} {c : ℚ} (hx : valueOf? x = some c) (hc : 0 ≤ c) :
    (∃ s, x.toModel.unpack = .zero s ∧ c = 0) ∨
      ∃ m e, ∃ h : IsCanonical m e, x.toModel.unpack = .finite .positive m e h.pos ∧ c = m * 2 ^ e := by
  obtain hzero | ⟨s, m, e, h, hunpack, rfl⟩ := valueOf?_eq_some.1 hx
  · exact .inl hzero
  · cases s with
    | positive => exact .inr ⟨m, e, h, hunpack, by simp [Sign.apply]⟩
    | negative =>
      have hpos : (0 : ℚ) < m * 2 ^ e := mul_pos (by exact_mod_cast h.pos) (zpow_two_pos e)
      simp only [Sign.apply, Int.cast_neg, Int.cast_natCast] at hc
      linarith

theorem exists_unpack_of_zero {x : Float} (hx : valueOf? x = some 0) : ∃ s, x.toModel.unpack = .zero s := by
  obtain ⟨s, hunpack, _⟩ | ⟨m, e, hm, _, hzero⟩ := cases_of_nonneg hx le_rfl
  · exact ⟨s, hunpack⟩
  · exact absurd hzero (mul_pos (by exact_mod_cast hm.pos) (zpow_two_pos e)).ne

/-- A number that is not negative and lies on the same side of every double as another one. -/
structure KeepsSides (r v : ℝ) : Prop where
  nonneg : 0 ≤ v
  le : ∀ {c : ℚ}, IsDouble c → 0 ≤ c → r ≤ c → v ≤ c
  ge : ∀ {c : ℚ}, IsDouble c → (c : ℝ) ≤ r → c ≤ v

theorem KeepsSides.le_of_le {q v c : ℚ} (h : KeepsSides q v) (hc : IsDouble c) (hnonneg : 0 ≤ c) (hle : q ≤ c) : v ≤ c := by
  exact_mod_cast h.le hc hnonneg (by exact_mod_cast hle)

theorem KeepsSides.le_of_ge {q v c : ℚ} (h : KeepsSides q v) (hc : IsDouble c) (hge : c ≤ q) : c ≤ v := by
  exact_mod_cast h.ge hc (by exact_mod_cast hge)

theorem KeepsSides.refl {r : ℝ} (h : 0 ≤ r) : KeepsSides r r :=
  ⟨h, fun _ _ hle => hle, fun _ hge => hge⟩

/-- What is rounded to a mantissa and exponent. -/
def scaled (s : Sign) (n : Nat) (t : Int) : UnpackedFloat :=
  if h : n = 0 then .zero s else .finite s n t (Nat.pos_of_ne_zero h)

/-- The exponent that a number is rounded to leaves 53 bits, or fewer if it is the least one. -/
private theorem shift_target {m : Nat} {e t : Int} (ht : t = Format.binary64.targetExponent (totalExponent m e))
    (hfit : e ≤ t) :
    m / 2 ^ (t - e).toNat < 2 ^ 53 ∧ (2 ^ 52 ≤ m / 2 ^ (t - e).toNat ∨ t = -1074) := by
  rw [targetExponent_eq] at ht
  constructor
  · rw [Nat.div_lt_iff_lt_mul (Nat.two_pow_pos _), ← Nat.pow_add]
    exact Nat.lt_log2_self.trans_le (Nat.pow_le_pow_right two_pos (by omega))
  · by_cases hleast : t = -1074
    · exact .inr hleast
    · have hm : m ≠ 0 := by
        rintro rfl
        rw [Nat.log2_zero] at ht
        omega
      refine .inl ((Nat.le_div_iff_mul_le (Nat.two_pow_pos _)).2 ?_)
      rw [← Nat.pow_add]
      exact (Nat.pow_le_pow_right two_pos (by omega)).trans (Nat.log2_self_le hm)

private theorem shift_again_of_lt {n : Nat} {t : Int} (hn : n < 2 ^ 53) (ht : -1074 ≤ t) :
    shiftToTargetExponent Format.binary64 n t .exact = (.ofMantissaAndAccuracy n .exact, t) := by
  have hlog : n.log2 ≤ 52 := by
    rcases eq_or_ne n 0 with rfl | hne
    · simp
    · exact Nat.lt_succ_iff.1 ((Nat.log2_lt hne).2 hn)
  have hshift : (Format.binary64.targetExponent (totalExponent n t) - t).toNat = 0 := by
    rw [targetExponent_eq]
    omega
  simp only [shiftToTargetExponent, shiftToExponent, hshift, Nat.cast_zero, Int.add_zero]
  rfl

/-- A carry to 54 bits is shifted once. -/
private theorem shift_again_of_carry {t : Int} (ht : -1074 ≤ t) :
    shiftToTargetExponent Format.binary64 (2 ^ 53) t .exact = (.ofMantissaAndAccuracy (2 ^ 52) .exact, t + 1) := by
  have hshift : (Format.binary64.targetExponent (totalExponent (2 ^ 53) t) - t).toNat = 1 := by
    rw [targetExponent_eq, Nat.log2_two_pow]
    omega
  simp only [shiftToTargetExponent, shiftToExponent, hshift]
  rfl

theorem real_zpow_pos (e : Int) : (0 : ℝ) < 2 ^ e := zpow_pos two_pos e

theorem cast_mul_zpow (m : Nat) (e : Int) : ((m * 2 ^ e : ℚ) : ℝ) = m * 2 ^ e := by
  push_cast
  rfl

/-- A double with an exponent below that of a full mantissa is smaller. -/
theorem canonical_lt_of_exponent_lt {K : Type*} [Field K] [LinearOrder K] [IsStrictOrderedRing K] {m n : Nat} {e t : Int}
    (h : IsCanonical m e) (hlt : e < t) (hn : 2 ^ 52 ≤ n) : (m : K) * 2 ^ e < n * 2 ^ t := by
  have hm : (m : K) < 2 ^ 53 := by exact_mod_cast h.lt
  have hn' : (2 : K) ^ 52 ≤ n := by exact_mod_cast hn
  have hpos : (0 : K) < 2 ^ e := zpow_pos two_pos e
  have hpow : (2 : K) ^ e * 2 ≤ 2 ^ t := by
    rw [← zpow_add_one₀ two_ne_zero]
    exact zpow_le_zpow_right₀ one_le_two (by omega)
  calc (m : K) * 2 ^ e
    _ < 2 ^ 53 * 2 ^ e := by gcongr
    _ = 2 ^ 52 * (2 ^ e * 2) := by ring
    _ ≤ n * 2 ^ t := by gcongr

/-- A double with an exponent that is not below another one is a multiple of its unit. -/
theorem canonical_eq_mul {K : Type*} [Field K] [CharZero K] {m : Nat} {e t : Int} (hle : t ≤ e) :
    (m : K) * 2 ^ e = (m * 2 ^ (e - t).toNat : Nat) * 2 ^ t := by
  have hexponent : e = (e - t).toNat + t := by omega
  conv => lhs; rw [hexponent]
  rw [zpow_add₀ two_ne_zero, zpow_natCast]
  push_cast
  ring

theorem keepsSides_rounded {em : ExtendedMantissa} {r : ℝ} {t : Int} (h : Holds em (r / 2 ^ t))
    (hfull : 2 ^ 52 ≤ em.mantissa ∨ t = -1074) : KeepsSides r (em.roundedMantissa * 2 ^ t) where
  nonneg := by positivity
  le := by
    rintro c ⟨x, hx⟩ hc hr
    obtain ⟨_, _, rfl⟩ | ⟨m, e, hm, _, rfl⟩ := cases_of_nonneg hx hc
    · have hzero : r / 2 ^ t ≤ (0 : Nat) := by
        rw [div_le_iff₀ (real_zpow_pos t)]
        simpa using hr
      rw [Nat.le_zero.1 (h.rounded_le hzero)]
      simp
    · push_cast at hr ⊢
      rcases Int.lt_or_le e t with hlt | hle
      · have hn := hfull.resolve_right (by have := hm.least; omega)
        have habove : (m : ℝ) * 2 ^ e < _ := canonical_lt_of_exponent_lt hm hlt hn
        have hbelow := (le_div_iff₀ (real_zpow_pos t)).1 h.le
        linarith
      · rw [canonical_eq_mul hle] at hr ⊢
        have := h.rounded_le ((div_le_iff₀ (real_zpow_pos t)).2 hr)
        gcongr
  ge := by
    rintro c ⟨x, hx⟩ hr
    rcases le_or_gt c 0 with hc | hc
    · have hnonpos : (c : ℝ) ≤ 0 := by exact_mod_cast hc
      exact hnonpos.trans (by positivity)
    · obtain ⟨_, _, rfl⟩ | ⟨m, e, hm, _, rfl⟩ := cases_of_nonneg hx hc.le
      · exact absurd hc (lt_irrefl _)
      · push_cast at hr ⊢
        rcases Int.lt_or_le e t with hlt | hle
        · have hn := hfull.resolve_right (by have := hm.least; omega)
          exact (canonical_lt_of_exponent_lt hm hlt (hn.trans (mantissa_le_rounded em))).le
        · rw [canonical_eq_mul hle] at hr ⊢
          have := h.le_rounded ((le_div_iff₀ (real_zpow_pos t)).2 hr)
          gcongr

/-- Rounding cuts a mantissa down to the exponent that it is rounded to, and rounds what is left; a carry changes the form
and not the value. -/
theorem exists_scaled {m : Nat} {e t : Int} {acc : Accuracy}
    (ht : t = Format.binary64.targetExponent (totalExponent m e)) (hfit : e ≤ t) :
    let em := ExtendedMantissa.ofMantissaAndAccuracy m acc >>> (t - e).toNat
    (2 ^ 52 ≤ em.mantissa ∨ t = -1074) ∧
      ∃ n t', IsScaled n t' ∧ (n * 2 ^ t' : ℝ) = em.roundedMantissa * 2 ^ t ∧
        ∀ s, roundWithAccuracy Format.binary64 s m e acc = scaled s n t' := by
  intro em
  have hfirst : shiftToTargetExponent Format.binary64 m e acc = (em, t) := by
    simp only [shiftToTargetExponent, shiftToExponent, ← ht]
    rw [Int.toNat_of_nonneg (by omega), add_sub_cancel]
  have hmantissa : em.mantissa = m / 2 ^ (t - e).toNat := by
    rw [mantissa_shiftRight, mantissa_ofMantissaAndAccuracy]
  obtain ⟨hlt, hfull⟩ := shift_target ht hfit
  rw [← hmantissa] at hlt hfull
  have hleast : -1074 ≤ t := by
    rw [ht, targetExponent_eq]
    exact Int.le_max_right _ _
  have hle := rounded_le_succ em
  have hge := mantissa_le_rounded em
  refine ⟨hfull, ?_⟩
  rcases Nat.lt_or_ge em.roundedMantissa (2 ^ 53) with hsmall | hcarry
  · refine ⟨em.roundedMantissa, t, ⟨hsmall, hleast, hfull.imp_left (·.trans hge)⟩, rfl, fun s => ?_⟩
    simp only [roundWithAccuracy, hfirst, shift_again_of_lt hsmall hleast]
    rfl
  · have hsame : em.roundedMantissa = 2 ^ 53 := by omega
    have hvalue : ((2 ^ 52 : Nat) : ℝ) * 2 ^ (t + 1) = em.roundedMantissa * 2 ^ t := by
      rw [hsame, zpow_add_one₀ two_ne_zero]
      push_cast
      ring
    refine ⟨2 ^ 52, t + 1, ⟨by omega, by omega, .inl le_rfl⟩, hvalue, fun s => ?_⟩
    simp only [roundWithAccuracy, hfirst, hsame, shift_again_of_carry hleast]
    rfl

theorem div_two_zpow {e t : Int} (h : e ≤ t) (r : ℝ) : r / 2 ^ t = r / 2 ^ e / 2 ^ (t - e).toNat := by
  have hpow : (2 : ℝ) ^ t = 2 ^ e * 2 ^ (t - e).toNat := by
    rw [← zpow_natCast, ← zpow_add₀ two_ne_zero, Int.toNat_of_nonneg (by omega), add_sub_cancel]
  rw [hpow, div_div]

/-- What a number is rounded to keeps the side of every double. -/
theorem exists_rounded {m : Nat} {e : Int} {acc : Accuracy} {r : ℝ}
    (hfit : e ≤ Format.binary64.targetExponent (totalExponent m e))
    (h : Holds (.ofMantissaAndAccuracy m acc) (r / 2 ^ e)) :
    ∃ n t, IsScaled n t ∧ KeepsSides r (n * 2 ^ t) ∧
      ∀ s, roundWithAccuracy Format.binary64 s m e acc = scaled s n t := by
  obtain ⟨t, ht⟩ : ∃ t, t = Format.binary64.targetExponent (totalExponent m e) := ⟨_, rfl⟩
  rw [← ht] at hfit
  obtain ⟨hfull, n, t', hn, hvalue, hround⟩ := @exists_scaled m e t acc ht hfit
  have hheld : Holds (ExtendedMantissa.ofMantissaAndAccuracy m acc >>> (t - e).toNat) (r / 2 ^ t) := by
    rw [div_two_zpow hfit]
    exact h.shiftRight _
  exact ⟨n, t', hn, hvalue ▸ keepsSides_rounded hheld hfull, hround⟩

/-- What is rounded to a number that is not above some double is the double of that number. -/
theorem valueOf?_of_scaled {x : Float} {n : Nat} {t : Int} {c : ℚ}
    (hx : x.toModel.unpack = unpack Format.binary64 (pack Format.binary64 (scaled .positive n t)))
    (hn : IsScaled n t) (hc : IsDouble c) (hnonneg : 0 ≤ c) (hle : (n : ℚ) * 2 ^ t ≤ c) :
    valueOf? x = some ((n : ℚ) * 2 ^ t) := by
  unfold scaled at hx
  split at hx
  · next hzero =>
    refine valueOf?_eq_some.2 (.inl ⟨_, hx.trans unpack_packedZero, ?_⟩)
    simp [hzero]
  · next hne =>
    have hpos : (0 : ℚ) < n * 2 ^ t := mul_pos (by exact_mod_cast Nat.pos_of_ne_zero hne) (zpow_two_pos t)
    have hgreatest : t ≤ 971 := by
      obtain ⟨y, hy⟩ := hc
      obtain ⟨_, _, rfl⟩ | ⟨m, e, hm, _, rfl⟩ := cases_of_nonneg hy hnonneg
      · linarith
      · by_contra hgt
        have hfull := hn.full.resolve_right (by omega)
        have hlt : e < t := by have := hm.greatest; omega
        have := canonical_lt_of_exponent_lt (K := ℚ) hm hlt hfull
        linarith
    have hcanonical : IsCanonical n t := ⟨Nat.pos_of_ne_zero hne, hn.lt, hn.least, hgreatest, hn.full⟩
    exact valueOf?_eq_some.2
      (.inr ⟨.positive, n, t, hcanonical, hx.trans (unpack_pack hcanonical .positive), by simp [Sign.apply]⟩)

/-- What a number below some double is rounded to is a double. -/
theorem valueOf?_of_keepsSides {x : Float} {n : Nat} {t : Int} {r : ℝ} {c : ℚ}
    (hx : x.toModel.unpack = unpack Format.binary64 (pack Format.binary64 (scaled .positive n t)))
    (hn : IsScaled n t) (hsides : KeepsSides r (n * 2 ^ t)) (hc : IsDouble c) (hnonneg : 0 ≤ c) (hle : r ≤ c) :
    valueOf? x = some ((n : ℚ) * 2 ^ t) := by
  have hbelow : (n : ℚ) * 2 ^ t ≤ c := by exact_mod_cast (cast_mul_zpow n t).trans_le (hsides.le hc hnonneg hle)
  exact valueOf?_of_scaled hx hn hc hnonneg hbelow

theorem exists_valueOf?_of_scaled {x : Float} {n : Nat} {t : Int} {r : ℝ} {c : ℚ}
    (hx : x.toModel.unpack = unpack Format.binary64 (pack Format.binary64 (scaled .positive n t)))
    (hn : IsScaled n t) (hsides : KeepsSides r (n * 2 ^ t)) (hc : IsDouble c) (hnonneg : 0 ≤ c) (hle : r ≤ c) :
    ∃ v, valueOf? x = some v ∧ KeepsSides r v :=
  ⟨n * 2 ^ t, valueOf?_of_keepsSides hx hn hsides hc hnonneg hle, by rwa [cast_mul_zpow]⟩

/-! ### Operations -/

theorem fits_of_full {m : Nat} {e : Int} (h : 2 ^ 52 ≤ m ∨ e ≤ -1074) :
    e ≤ Format.binary64.targetExponent (totalExponent m e) := by
  rw [targetExponent_eq]
  rcases h with h | h
  · have := (Nat.le_log2 (by omega)).2 h
    omega
  · omega

/-- The product of two numbers that are not negative keeps the side of every double. -/
theorem exists_valueOf?_mul {x y : Float} {a b c : ℚ} (hx : valueOf? x = some a) (hy : valueOf? y = some b)
    (ha : 0 ≤ a) (hb : 0 ≤ b) (hc : IsDouble c) (hle : a * b ≤ c) :
    ∃ v, valueOf? (x * y) = some v ∧ KeepsSides (a * b : ℚ) v := by
  have hnonneg : 0 ≤ c := (mul_nonneg ha hb).trans hle
  obtain ⟨s₁, hux, rfl⟩ | ⟨m₁, e₁, h₁, hux, rfl⟩ := cases_of_nonneg hx ha <;>
    obtain ⟨s₂, huy, rfl⟩ | ⟨m₂, e₂, h₂, huy, rfl⟩ := cases_of_nonneg hy hb
  · exact ⟨0, by simpa using valueOf?_mul hx hy (by rw [zero_mul]; exact hx), by simpa using KeepsSides.refl le_rfl⟩
  · exact ⟨0, by simpa using valueOf?_mul hx hy (by rw [zero_mul]; exact hx), by simpa using KeepsSides.refl le_rfl⟩
  · exact ⟨0, by simpa using valueOf?_mul hx hy (by rw [mul_zero]; exact hy), by simpa using KeepsSides.refl le_rfl⟩
  · have hunpack := unpack_mul x y
    simp only [hux, huy, UnpackedFloat.mul] at hunpack
    have hfit : 2 ^ 52 ≤ m₁ * m₂ ∨ e₁ + e₂ ≤ -1074 := by
      rcases h₁.full with hfull | he₁
      · exact .inl (hfull.trans (Nat.le_mul_of_pos_right _ h₂.pos))
      · rcases h₂.full with hfull | he₂
        · exact .inl (hfull.trans (Nat.le_mul_of_pos_left _ h₁.pos))
        · exact .inr (by omega)
    have hexact : (((m₁ * 2 ^ e₁ * (m₂ * 2 ^ e₂) : ℚ) : ℝ)) / 2 ^ (e₁ + e₂) = (m₁ * m₂ : Nat) := by
      rw [div_eq_iff (real_zpow_pos _).ne', zpow_add₀ two_ne_zero]
      push_cast
      ring
    obtain ⟨n, t, hn, hsides, hround⟩ := exists_rounded (fits_of_full hfit) (hexact ▸ holds_exact _)
    exact exists_valueOf?_of_scaled (hunpack.trans (by rw [← hround]; rfl)) hn hsides hc hnonneg (by exact_mod_cast hle)

end Likeness
