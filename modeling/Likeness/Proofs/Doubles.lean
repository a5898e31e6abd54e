import Mathlib

/-!
# Arithmetic of doubles

What the sums and the measures rely on, proved of the logical model of the library's doubles.

* (form) a finite double other than zero is kept as a mantissa and an exponent in a form that its value determines
  (`IsCanonical.unique`); rounding and packing keep a number that has this form (`round_exact`, `unpack_pack`).
* (values) `valueOf?` is the number that a double stands for; only the two zeros share one (`eq_of_valueOf?_eq`).
* (operations) a product or a sum that is a double is computed exactly (`valueOf?_mul`, `valueOf?_add`).
* (order) `float_mul_comm` and `sub_mul_sub_comm`: a product and the square of a difference do not depend on the order of
  the two sides, whatever these are.
-/

namespace Likeness

open Float.Model
open Float.Model.UnpackedFloat hiding round normalize

/-! ### Canonical form -/

/-- The mantissa and exponent that a finite double other than zero is kept with: 53 bits, or fewer at the least
exponent. -/
structure IsCanonical (m : Nat) (e : Int) : Prop where
  pos : 0 < m
  lt : m < 2 ^ 53
  least : -1074 ≤ e
  greatest : e ≤ 971
  full : 2 ^ 52 ≤ m ∨ e = -1074

theorem targetExponent_eq (m : Nat) (e : Int) :
    Format.binary64.targetExponent (totalExponent m e) = max ((m.log2 : Int) + 1 + e - 53) (-1074) := by
  simp only [Format.targetExponent, totalExponent]
  rfl

theorem log2_mul_two_pow {m : Nat} (h : 0 < m) (k : Nat) : (m * 2 ^ k).log2 = m.log2 + k := by
  induction k with
  | zero => simp
  | succ k ih =>
    have hne : m * 2 ^ k ≠ 0 := (Nat.mul_pos h (Nat.two_pow_pos k)).ne'
    rw [Nat.pow_succ', Nat.mul_left_comm, Nat.log2_two_mul hne, ih, Nat.add_assoc]

theorem targetExponent_shift {m : Nat} {e : Int} (h : IsCanonical m e) (k : Nat) :
    Format.binary64.targetExponent (totalExponent (m * 2 ^ k) (e - k)) = e := by
  obtain ⟨pos, lt, least, _, full⟩ := h
  have hlog : m.log2 < 53 := (Nat.log2_lt pos.ne').2 lt
  rw [targetExponent_eq, log2_mul_two_pow pos]
  push_cast
  rcases full with full | rfl
  · have hfull : 52 ≤ m.log2 := (Nat.le_log2 pos.ne').2 full
    omega
  · omega

theorem shiftRight_ofMantissa (m k : Nat) :
    ExtendedMantissa.ofMantissaAndAccuracy (m * 2 ^ k) .exact >>> k = .ofMantissaAndAccuracy m .exact := by
  change k.repeat ExtendedMantissa.shiftRightOne _ = _
  induction k generalizing m with
  | zero => simp [Nat.repeat]
  | succ k ih =>
    rw [Nat.repeat, Nat.pow_succ', ← Nat.mul_assoc, ih]
    simp [ExtendedMantissa.shiftRightOne, ExtendedMantissa.ofMantissaAndAccuracy]

theorem shiftToTargetExponent_exact {m : Nat} {e : Int} (h : IsCanonical m e) (k : Nat) :
    shiftToTargetExponent Format.binary64 (m * 2 ^ k) (e - k) .exact = (.ofMantissaAndAccuracy m .exact, e) := by
  have hshift : (e - (e - k)).toNat = k := by omega
  rw [shiftToTargetExponent, targetExponent_shift h, shiftToExponent, hshift, shiftRight_ofMantissa, Int.sub_add_cancel]

private theorem roundWithAccuracy_shift {m : Nat} {e : Int} (h : IsCanonical m e) (s : Sign) (k : Nat) :
    roundWithAccuracy Format.binary64 s (m * 2 ^ k) (e - k) .exact = .finite s m e h.pos := by
  have hrounded : (ExtendedMantissa.ofMantissaAndAccuracy m .exact).roundedMantissa = m := rfl
  have hagain : shiftToTargetExponent Format.binary64 m e .exact = (.ofMantissaAndAccuracy m .exact, e) := by
    simpa using shiftToTargetExponent_exact h 0
  simp only [roundWithAccuracy, shiftToTargetExponent_exact h, hrounded, hagain]
  exact dif_neg h.pos.ne'

/-! ### Numbers with more than one form -/

theorem zpow_two_pos (e : Int) : (0 : ℚ) < 2 ^ e := zpow_pos two_pos e

private theorem zpow_two_eq {e e' : Int} (hle : e' ≤ e) : (2 : ℚ) ^ e = 2 ^ (e - e').toNat * 2 ^ e' := by
  rw [← zpow_natCast, ← zpow_add₀ two_ne_zero, Int.toNat_of_nonneg (by omega), Int.sub_add_cancel]

/-- Of two mantissas of one number, the one with the smaller exponent is the other one shifted. -/
theorem mantissa_eq_shift {m m' : Nat} {e e' : Int} (h : (m' : ℚ) * 2 ^ e' = m * 2 ^ e) (hle : e' ≤ e) :
    m' = m * 2 ^ (e - e').toNat := by
  rw [zpow_two_eq hle, ← mul_assoc] at h
  exact_mod_cast mul_right_cancel₀ (zpow_two_pos e').ne' h

/-- A number has only one mantissa and exponent in canonical form. -/
theorem IsCanonical.unique {m m' : Nat} {e e' : Int} (h : IsCanonical m e) (h' : IsCanonical m' e')
    (heq : (m : ℚ) * 2 ^ e = m' * 2 ^ e') : m = m' ∧ e = e' := by
  wlog hle : e ≤ e' generalizing m m' e e' with hwlog
  · obtain ⟨hm, he⟩ := hwlog h' h heq.symm (by omega)
    exact ⟨hm.symm, he.symm⟩
  have hm := mantissa_eq_shift heq hle
  -- shifting a full mantissa makes it too wide
  have hshift : (e' - e).toNat = 0 := by
    by_contra hpos
    have hfull : 2 ^ 52 ≤ m' := h'.full.resolve_right (by have := h.least; omega)
    have : 2 ^ 52 * 2 ^ 1 ≤ m' * 2 ^ (e' - e).toNat := Nat.mul_le_mul hfull (Nat.pow_le_pow_right (by omega) (by omega))
    have := h.lt
    omega
  rw [hshift] at hm
  exact ⟨by simpa using hm, by omega⟩

theorem pos_of_value {m m' : Nat} {e e' : Int} (h : IsCanonical m e) (heq : (m' : ℚ) * 2 ^ e' = m * 2 ^ e) :
    0 < m' := by
  have hpos : (0 : ℚ) < m' * 2 ^ e' := by
    rw [heq]
    exact mul_pos (by exact_mod_cast h.pos) (zpow_two_pos e)
  exact_mod_cast pos_of_mul_pos_left hpos (zpow_two_pos e').le

theorem decreaseExponent_value (m : Nat) (e e' : Int) :
    ((decreaseExponent m e e').1 : ℚ) * 2 ^ (decreaseExponent m e e').2 = m * 2 ^ e := by
  have hexponent : e - (e - (e - e').toNat) = (e - e').toNat := by omega
  simp only [decreaseExponent]
  rw [zpow_two_eq (show e - (e - e').toNat ≤ e by omega), hexponent, Int.toNat_natCast, Nat.shiftLeft_eq]
  push_cast
  ring

theorem decreaseExponent_snd (m : Nat) (e e' : Int) : (decreaseExponent m e e').2 = min e e' := by
  simp only [decreaseExponent]
  omega

/-- The exponent that a number is rounded to is that of its canonical form, in whatever form it is given. -/
private theorem targetExponent_exact {m m' : Nat} {e e' : Int} (h : IsCanonical m e)
    (heq : (m' : ℚ) * 2 ^ e' = m * 2 ^ e) : Format.binary64.targetExponent (totalExponent m' e') = e := by
  have hpos : 0 < m' := pos_of_value h heq
  rcases Int.le_total e' e with hle | hle
  · have htarget := targetExponent_shift h (e - e').toNat
    rwa [← mantissa_eq_shift heq hle, Int.toNat_of_nonneg (by omega), Int.sub_sub_self] at htarget
  · have hsame : totalExponent m' e' = totalExponent m e := by
      rw [mantissa_eq_shift heq.symm hle]
      simp only [totalExponent, log2_mul_two_pow hpos]
      omega
    rw [hsame]
    simpa using targetExponent_shift h 0

theorem roundWithAccuracy_exact {m m' : Nat} {e e' : Int} (h : IsCanonical m e)
    (heq : (m' : ℚ) * 2 ^ e' = m * 2 ^ e) (hle : e' ≤ e) (s : Sign) :
    roundWithAccuracy Format.binary64 s m' e' .exact = .finite s m e h.pos := by
  have hround := roundWithAccuracy_shift h s (e - e').toNat
  rwa [← mantissa_eq_shift heq hle, Int.toNat_of_nonneg (by omega), Int.sub_sub_self] at hround

/-- Rounding keeps a number that has a canonical form. -/
theorem round_exact {m m' : Nat} {e e' : Int} (h : IsCanonical m e) (heq : (m' : ℚ) * 2 ^ e' = m * 2 ^ e) (s : Sign) :
    UnpackedFloat.round Format.binary64 s m' e' = .finite s m e h.pos := by
  have hvalue := (decreaseExponent_value m' e' e).trans heq
  have hle : (decreaseExponent m' e' e).2 ≤ e := decreaseExponent_snd m' e' e ▸ Int.min_le_right e' e
  simp only [UnpackedFloat.round, targetExponent_exact h heq]
  exact roundWithAccuracy_exact h hvalue hle s

/-! ### Packing -/

private theorem toNat_append_one (f : BitVec 52) : (1#1 ++ f).toNat = 2 ^ 52 + f.toNat := by
  rw [BitVec.toNat_append, ← Nat.shiftLeft_add_eq_or_of_lt f.isLt]
  rfl

theorem unpack_packComponents (s : Sign) (e : BitVec 11) (f : BitVec 52) :
    UnpackedFloat.unpack Format.binary64 (packComponents Format.binary64 s e f) =
      if e = -1#11 then (if f = 0#52 then .infinity s else .notANumber)
      else if e = 0#11 then (if h : f = 0#52 then .zero s else .finite s f.toNat (-1074) (by
        have : f.toNat ≠ 0 := fun h0 => h (BitVec.eq_of_toNat_eq h0); omega))
      else .finite s (2 ^ 52 + f.toNat) (e.toNat - 1075) (by positivity) := by
  simp only [UnpackedFloat.unpack, unpackMantissa_packComponents, unpackExponent_packComponents,
    unpackSign_packComponents, Sign.ofBitVec_toBitVec, toNat_append_one]
  split
  · rfl
  · split
    · next h =>
      subst h
      rfl
    · rfl

private theorem ofNat_ne {width n : Nat} (hn : n < 2 ^ width) {v : BitVec width} (h : n ≠ v.toNat) :
    BitVec.ofNat width n ≠ v := by
  rintro rfl
  rw [BitVec.toNat_ofNat, Nat.mod_eq_of_lt hn] at h
  exact h rfl

private theorem pack_finite {m : Nat} {e : Int} (h : IsCanonical m e) (s : Sign) :
    UnpackedFloat.pack Format.binary64 (.finite s m e h.pos) =
      packComponents Format.binary64 s (if 2 ^ 52 ≤ m then BitVec.ofNat 11 (e + 1075).toNat else 0#11)
        (BitVec.ofNat 52 m) := by
  obtain ⟨pos, lt, least, greatest, _⟩ := h
  have hbias : (e + Format.binary64.exponentBias + Format.binary64.mantissaBitsWithoutImplicit).toNat =
      (e + 1075).toNat := by
    change (e + 1023 + 52).toNat = _
    omega
  have hfits : ¬ 2 ^ Format.binary64.exponentBits ≤ (e + 1075).toNat + 1 := by
    change ¬ 2048 ≤ _
    omega
  have hwidth : m.log2 + 1 = Format.binary64.mantissaBits ↔ 2 ^ 52 ≤ m := by
    change m.log2 + 1 = 53 ↔ _
    rw [← Nat.le_log2 pos.ne']
    have := (Nat.log2_lt pos.ne').2 lt
    omega
  simp only [UnpackedFloat.pack, hbias, if_neg hfits, hwidth]
  split_ifs <;> rfl

/-- Packing keeps what is in canonical form. -/
theorem unpack_pack {m : Nat} {e : Int} (h : IsCanonical m e) (s : Sign) :
    UnpackedFloat.unpack Format.binary64 (UnpackedFloat.pack Format.binary64 (.finite s m e h.pos)) =
      .finite s m e h.pos := by
  rw [pack_finite h]
  obtain ⟨pos, lt, least, greatest, full⟩ := h
  have hlt : (e + 1075).toNat < 2 ^ 11 := by omega
  by_cases hfull : 2 ^ 52 ≤ m
  · have hones : BitVec.ofNat 11 (e + 1075).toNat ≠ -1#11 := ofNat_ne hlt (by change _ ≠ 2047; omega)
    have hzero : BitVec.ofNat 11 (e + 1075).toNat ≠ 0#11 := ofNat_ne hlt (by change _ ≠ 0; omega)
    rw [if_pos hfull, unpack_packComponents, if_neg hones, if_neg hzero]
    congr 1
    · rw [BitVec.toNat_ofNat]
      omega
    · rw [BitVec.toNat_ofNat, Nat.mod_eq_of_lt hlt]
      omega
  · obtain rfl : e = -1074 := full.resolve_left hfull
    have hzero : BitVec.ofNat 52 m ≠ 0#52 := ofNat_ne (by omega) pos.ne'
    rw [if_neg hfull, unpack_packComponents, if_neg (by decide), if_pos rfl, dif_neg hzero]
    congr 1
    rw [BitVec.toNat_ofNat, Nat.mod_eq_of_lt (by omega)]

private theorem isCanonical_of_unpack_packComponents {s t : Sign} {exponent : BitVec 11} {fraction : BitVec 52} {m : Nat}
    {e : Int} {pos : 0 < m}
    (h : UnpackedFloat.unpack Format.binary64 (packComponents Format.binary64 t exponent fraction) = .finite s m e pos) :
    IsCanonical m e := by
  have hfraction := fraction.isLt
  rw [unpack_packComponents] at h
  split_ifs at h with hones _ hzero _
  · cases h
    exact ⟨pos, by omega, by omega, by omega, .inr rfl⟩
  · cases h
    have hexp := exponent.isLt
    have hones' : exponent.toNat ≠ 2047 := fun heq => hones (BitVec.eq_of_toNat_eq heq)
    have hzero' : exponent.toNat ≠ 0 := fun heq => hzero (BitVec.eq_of_toNat_eq heq)
    exact ⟨pos, by omega, by omega, by omega, .inl (by omega)⟩

/-- Every finite double other than zero is kept in canonical form. -/
theorem isCanonical_of_unpack {x : Float} {s : Sign} {m : Nat} {e : Int} {pos : 0 < m}
    (h : x.toModel.unpack = .finite s m e pos) : IsCanonical m e := by
  have hbits := @packComponents_unpackSign_unpackExponent_unpackMantissa Format.binary64 x.toModel.toBits.toBitVec
  rw [Float.Model.unpack, ← hbits] at h
  exact isCanonical_of_unpack_packComponents h

theorem eq_of_unpack_eq {x y : Float} (h : x.toModel.unpack = y.toModel.unpack) : x = y := by
  have hbits := (unpack_inj_of_valid x.toModel.valid y.toModel.valid).1 h
  exact Float.toBits_inj.1 (UInt64.toBitVec_inj.1 hbits)

/-! ### The value of a double -/

/-- The number that a double stands for.  Infinities and what is no number stand for none. -/
def valueOf? (x : Float) : Option ℚ :=
  match x.toModel.unpack with
  | .zero _ => some 0
  | .finite s m e _ => some (s.apply m * 2 ^ e)
  | .infinity _ | .notANumber => none

theorem valueOf?_eq_some {x : Float} {v : ℚ} :
    valueOf? x = some v ↔ (∃ s, x.toModel.unpack = .zero s ∧ v = 0) ∨
      ∃ s m e, ∃ h : IsCanonical m e, x.toModel.unpack = .finite s m e h.pos ∧ v = s.apply m * 2 ^ e := by
  unfold valueOf?
  constructor
  · intro h
    split at h
    · next s hx => exact .inl ⟨s, hx, (Option.some.inj h).symm⟩
    · next s m e pos hx => exact .inr ⟨s, m, e, isCanonical_of_unpack hx, hx, (Option.some.inj h).symm⟩
    · cases h
    · cases h
  · rintro (⟨s, hx, rfl⟩ | ⟨s, m, e, h, hx, rfl⟩) <;> rw [hx]

private theorem apply_ne_zero {m : Nat} (h : 0 < m) (s : Sign) (e : Int) : ((s.apply m : Int) : ℚ) * 2 ^ e ≠ 0 := by
  have hm : (m : ℚ) ≠ 0 := by exact_mod_cast h.ne'
  cases s <;> simp [Sign.apply, hm, (zpow_two_pos e).ne']

/-- Two signed numbers are equal only if the signs and the sizes are. -/
private theorem apply_inj {m m' : Nat} (h : 0 < m) (h' : 0 < m') {s s' : Sign} {e e' : Int}
    (heq : ((s.apply m : Int) : ℚ) * 2 ^ e = (s'.apply m' : Int) * 2 ^ e') : s = s' ∧ (m : ℚ) * 2 ^ e = m' * 2 ^ e' := by
  have hpos : (0 : ℚ) < m * 2 ^ e := mul_pos (by exact_mod_cast h) (zpow_two_pos e)
  have hpos' : (0 : ℚ) < m' * 2 ^ e' := mul_pos (by exact_mod_cast h') (zpow_two_pos e')
  cases s <;> cases s' <;> simp only [Sign.apply, Int.cast_neg, Int.cast_natCast, neg_mul, neg_inj] at heq
  · exact ⟨rfl, heq⟩
  · linarith
  · linarith
  · exact ⟨rfl, heq⟩

/-- Doubles of the same value are the same, but for the sign of zero. -/
theorem eq_of_valueOf?_eq {x y : Float} {v : ℚ} (hx : valueOf? x = some v) (hy : valueOf? y = some v) (hv : v ≠ 0) :
    x = y := by
  obtain ⟨_, _, rfl⟩ | ⟨s, m, e, h, hux, rfl⟩ := valueOf?_eq_some.1 hx
  · exact absurd rfl hv
  · obtain ⟨_, _, hzero⟩ | ⟨s', m', e', h', huy, hsame⟩ := valueOf?_eq_some.1 hy
    · exact absurd hzero hv
    · obtain ⟨rfl, hsize⟩ := apply_inj h.pos h'.pos hsame
      obtain ⟨rfl, rfl⟩ := h.unique h' hsize
      exact eq_of_unpack_eq (hux.trans huy.symm)

/-! ### Operations -/

theorem unpack_mul (x y : Float) :
    (x * y).toModel.unpack =
      UnpackedFloat.unpack Format.binary64
        (UnpackedFloat.pack Format.binary64 (UnpackedFloat.mul Format.binary64 x.toModel.unpack y.toModel.unpack)) := rfl

theorem unpack_add (x y : Float) :
    (x + y).toModel.unpack =
      UnpackedFloat.unpack Format.binary64
        (UnpackedFloat.pack Format.binary64 (UnpackedFloat.add Format.binary64 x.toModel.unpack y.toModel.unpack)) := rfl

/-- Multiplication does not care for the order. -/
theorem float_mul_comm (x y : Float) : x * y = y * x := by
  refine eq_of_unpack_eq ?_
  rw [unpack_mul, unpack_mul]
  have hsign : ∀ s t : Sign, s * t = t * s := by
    rintro (_ | _) (_ | _) <;> rfl
  have hcomm : ∀ u v, UnpackedFloat.mul Format.binary64 u v = UnpackedFloat.mul Format.binary64 v u := by
    intro u v
    cases u <;> cases v <;> simp only [UnpackedFloat.mul]
    all_goals rw [hsign]
    rw [Nat.mul_comm, Int.add_comm]
  rw [hcomm]

theorem apply_mul_apply (s t : Sign) (m n : Nat) : s.apply m * t.apply n = (s * t).apply (m * n : Nat) := by
  rw [Int.natCast_mul]
  cases s <;> cases t
  exacts [Int.neg_mul_neg _ _, Int.neg_mul _ _, Int.mul_neg _ _, rfl]

/-- The exponent of a product is not above that of the same number in canonical form. -/
theorem exponent_mul_le {m₁ m₂ m : Nat} {e₁ e₂ e : Int} (h₁ : IsCanonical m₁ e₁) (h₂ : IsCanonical m₂ e₂)
    (h : IsCanonical m e) (heq : ((m₁ * m₂ : Nat) : ℚ) * 2 ^ (e₁ + e₂) = m * 2 ^ e) : e₁ + e₂ ≤ e := by
  by_contra hlt
  have hm := mantissa_eq_shift heq.symm (by omega)
  have htwo : 2 ^ 1 ≤ 2 ^ (e₁ + e₂ - e).toNat := Nat.pow_le_pow_right two_pos (by omega)
  have hwide : 2 ^ 52 ≤ m₁ * m₂ := by
    rcases h₁.full with hfull | he₁
    · exact hfull.trans (Nat.le_mul_of_pos_right _ h₂.pos)
    · rcases h₂.full with hfull | he₂
      · exact hfull.trans (Nat.le_mul_of_pos_left _ h₁.pos)
      · have := h.least
        omega
  have := Nat.mul_le_mul hwide htwo
  have := h.lt
  omega

/-- An exact product is kept. -/
theorem valueOf?_mul {x y z : Float} {a b : ℚ} (hx : valueOf? x = some a) (hy : valueOf? y = some b)
    (hz : valueOf? z = some (a * b)) : valueOf? (x * y) = some (a * b) := by
  rw [valueOf?_eq_some, unpack_mul]
  obtain ⟨s₁, hux, rfl⟩ | ⟨s₁, m₁, e₁, h₁, hux, rfl⟩ := valueOf?_eq_some.1 hx <;>
    obtain ⟨s₂, huy, rfl⟩ | ⟨s₂, m₂, e₂, h₂, huy, rfl⟩ := valueOf?_eq_some.1 hy <;>
    rw [hux, huy]
  · exact .inl ⟨_, unpack_packedZero, zero_mul _⟩
  · exact .inl ⟨_, unpack_packedZero, zero_mul _⟩
  · exact .inl ⟨_, unpack_packedZero, mul_zero _⟩
  · have hprod : ((s₁.apply m₁ : Int) : ℚ) * 2 ^ e₁ * ((s₂.apply m₂ : Int) * 2 ^ e₂) =
        ((s₁ * s₂).apply (m₁ * m₂ : Nat) : Int) * 2 ^ (e₁ + e₂) := by
      rw [← apply_mul_apply, zpow_add₀ two_ne_zero]
      push_cast
      ring
    rw [hprod] at hz ⊢
    have hpos : 0 < m₁ * m₂ := Nat.mul_pos h₁.pos h₂.pos
    obtain ⟨_, _, hzero⟩ | ⟨s, m, e, h, _, hsame⟩ := valueOf?_eq_some.1 hz
    · exact absurd hzero (apply_ne_zero hpos _ _)
    · obtain ⟨rfl, hsize⟩ := apply_inj hpos h.pos hsame
      have hle := exponent_mul_le h₁ h₂ h hsize
      refine .inr ⟨_, m, e, h, ?_, hsame⟩
      simp only [UnpackedFloat.mul, roundWithAccuracy_exact h hsize hle, unpack_pack h]

theorem normalize_signed {n : Nat} (h : 0 < n) (s t : Sign) (e : Int) :
    UnpackedFloat.normalize Format.binary64 (s.apply n) e t = UnpackedFloat.round Format.binary64 s n e := by
  cases s with
  | negative =>
    have hcmp : compare (-(n : Int)) 0 = .lt := Int.compare_eq_lt.2 (by omega)
    simp [UnpackedFloat.normalize, Sign.apply, hcmp]
  | positive =>
    have hcmp : compare (n : Int) 0 = .gt := Int.compare_eq_gt.2 (by omega)
    simp [UnpackedFloat.normalize, Sign.apply, hcmp]

private theorem exists_eq_apply {n : Int} (h : n ≠ 0) : ∃ s : Sign, ∃ m : Nat, 0 < m ∧ n = s.apply m := by
  rcases lt_or_gt_of_ne h with h | h
  · exact ⟨.negative, (-n).toNat, by omega, by simp only [Sign.apply]; omega⟩
  · exact ⟨.positive, n.toNat, by omega, by simp only [Sign.apply]; omega⟩

theorem normalize_exact {m : Nat} {e e' n : Int} (h : IsCanonical m e) {s : Sign}
    (heq : (n : ℚ) * 2 ^ e' = (s.apply m : Int) * 2 ^ e) (t : Sign) :
    UnpackedFloat.normalize Format.binary64 n e' t = .finite s m e h.pos := by
  have hn : n ≠ 0 := by
    rintro rfl
    rw [Int.cast_zero, zero_mul] at heq
    exact apply_ne_zero h.pos s e heq.symm
  obtain ⟨s', m', hpos, rfl⟩ := exists_eq_apply hn
  obtain ⟨rfl, hsize⟩ := apply_inj hpos h.pos heq
  rw [normalize_signed hpos, round_exact h hsize]

private theorem decreaseExponent_apply (s : Sign) (m : Nat) {e e' : Int} (h : e' ≤ e) :
    ((s.apply (decreaseExponent m e e').1 : Int) : ℚ) * 2 ^ e' = (s.apply m : Int) * 2 ^ e := by
  have hvalue := decreaseExponent_value m e e'
  rw [decreaseExponent_snd, Int.min_eq_right h] at hvalue
  cases s with
  | negative => simpa [Sign.apply] using hvalue
  | positive => simpa [Sign.apply] using hvalue

/-- An exact sum is kept. -/
theorem valueOf?_add {x y z : Float} {a b : ℚ} (hx : valueOf? x = some a) (hy : valueOf? y = some b)
    (hz : valueOf? z = some (a + b)) : valueOf? (x + y) = some (a + b) := by
  rw [valueOf?_eq_some, unpack_add]
  obtain ⟨s₁, hux, rfl⟩ | ⟨s₁, m₁, e₁, h₁, hux, rfl⟩ := valueOf?_eq_some.1 hx <;>
    obtain ⟨s₂, huy, rfl⟩ | ⟨s₂, m₂, e₂, h₂, huy, rfl⟩ := valueOf?_eq_some.1 hy <;>
    rw [hux, huy]
  · refine .inl ?_
    simp only [UnpackedFloat.add]
    split
    · exact ⟨_, unpack_packedZero, add_zero 0⟩
    · exact ⟨_, unpack_packedZero, add_zero 0⟩
  · exact .inr ⟨s₂, m₂, e₂, h₂, unpack_pack h₂ s₂, zero_add _⟩
  · exact .inr ⟨s₁, m₁, e₁, h₁, unpack_pack h₁ s₁, add_zero _⟩
  · let e' := min e₁ e₂
    let n : Int := s₁.apply (decreaseExponent m₁ e₁ e').1 + s₂.apply (decreaseExponent m₂ e₂ e').1
    have hsum : ((s₁.apply m₁ : Int) : ℚ) * 2 ^ e₁ + (s₂.apply m₂ : Int) * 2 ^ e₂ = n * 2 ^ e' := by
      rw [← decreaseExponent_apply s₁ m₁ (Int.min_le_left e₁ e₂),
        ← decreaseExponent_apply s₂ m₂ (Int.min_le_right e₁ e₂),
        ← add_mul, ← Int.cast_add]
    rw [hsum] at hz ⊢
    have hadd : UnpackedFloat.add Format.binary64 (.finite s₁ m₁ e₁ h₁.pos) (.finite s₂ m₂ e₂ h₂.pos) =
        UnpackedFloat.normalize Format.binary64 n e' .positive := rfl
    rw [hadd]
    obtain ⟨_, _, hzero⟩ | ⟨s, m, e, h, _, hsame⟩ := valueOf?_eq_some.1 hz
    · have hn : n = 0 := by
        have := (mul_eq_zero_iff_right (zpow_two_pos e').ne').1 hzero
        exact_mod_cast this
      rw [hzero, hn]
      exact .inl ⟨.positive, unpack_packedZero, rfl⟩
    · refine .inr ⟨s, m, e, h, ?_, hsame⟩
      rw [normalize_exact h hsame, unpack_pack h]

/-! ### Squares of differences -/

private theorem unpack_packComponents_neg (s : Sign) (exponent : BitVec 11) (fraction : BitVec 52) :
    UnpackedFloat.unpack Format.binary64 (packComponents Format.binary64 (-s) exponent fraction) =
      (UnpackedFloat.unpack Format.binary64 (packComponents Format.binary64 s exponent fraction)).neg := by
  rw [unpack_packComponents, unpack_packComponents]
  split_ifs <;> rfl

private theorem unpack_pack_neg (u : UnpackedFloat) :
    UnpackedFloat.unpack Format.binary64 (UnpackedFloat.pack Format.binary64 u.neg) =
      (UnpackedFloat.unpack Format.binary64 (UnpackedFloat.pack Format.binary64 u)).neg := by
  cases u with
  | notANumber => rfl
  | infinity s => exact unpack_packComponents_neg s _ _
  | zero s => exact unpack_packComponents_neg s _ _
  | finite s m e pos =>
    simp only [UnpackedFloat.neg, UnpackedFloat.pack]
    split_ifs <;> exact unpack_packComponents_neg s _ _

private theorem roundWithAccuracy_neg (s : Sign) (m : Nat) (e : Int) (acc : Accuracy) :
    roundWithAccuracy Format.binary64 (-s) m e acc = (roundWithAccuracy Format.binary64 s m e acc).neg := by
  simp only [roundWithAccuracy]
  split_ifs <;> rfl

private theorem normalize_neg {n : Int} (h : n ≠ 0) (e : Int) (t : Sign) :
    UnpackedFloat.normalize Format.binary64 (-n) e t = (UnpackedFloat.normalize Format.binary64 n e t).neg := by
  obtain ⟨s, m, hpos, rfl⟩ := exists_eq_apply h
  have hneg : -s.apply m = (-s).apply m := by cases s <;> simp [Sign.apply]
  rw [hneg, normalize_signed hpos, normalize_signed hpos]
  exact roundWithAccuracy_neg s _ _ _

/-- Exchanging the sides of a difference changes its sign at most. -/
private theorem sub_swap (u v : UnpackedFloat) :
    UnpackedFloat.sub Format.binary64 v u = UnpackedFloat.sub Format.binary64 u v ∨
      UnpackedFloat.sub Format.binary64 v u = (UnpackedFloat.sub Format.binary64 u v).neg := by
  cases u with
  | notANumber => cases v <;> exact .inl rfl
  | infinity s =>
    cases v with
    | notANumber => exact .inl rfl
    | infinity t => cases s <;> cases t <;> first | exact .inl rfl | exact .inr rfl
    | zero | finite => exact .inr rfl
  | zero s =>
    cases v with
    | notANumber => exact .inl rfl
    | infinity t => cases t <;> exact .inr rfl
    | zero t => cases s <;> cases t <;> first | exact .inl rfl | exact .inr rfl
    | finite t => cases t <;> exact .inr rfl
  | finite s m e hm =>
    cases v with
    | notANumber => exact .inl rfl
    | infinity t => cases t <;> exact .inr rfl
    | zero => exact .inr rfl
    | finite t n f hn =>
      simp only [UnpackedFloat.sub, Int.min_comm f e]
      generalize s.apply (decreaseExponent m e (min e f)).1 = a
      generalize t.apply (decreaseExponent n f (min e f)).1 = b
      rcases eq_or_ne (a - b) 0 with hzero | hne
      · rw [show b - a = a - b by omega]
        exact .inl rfl
      · rw [← Int.neg_sub a b]
        exact .inr (normalize_neg hne _ _)

private theorem mul_neg_neg (u : UnpackedFloat) :
    UnpackedFloat.mul Format.binary64 u.neg u.neg = UnpackedFloat.mul Format.binary64 u u := by
  have hsign : ∀ s : Sign, -s * -s = s * s := by
    rintro (_ | _) <;> rfl
  cases u <;> simp only [UnpackedFloat.neg, UnpackedFloat.mul, hsign]

theorem unpack_sub (x y : Float) :
    (x - y).toModel.unpack =
      UnpackedFloat.unpack Format.binary64
        (UnpackedFloat.pack Format.binary64 (UnpackedFloat.sub Format.binary64 x.toModel.unpack y.toModel.unpack)) := rfl

/-- The square of a difference does not care for the order of its sides. -/
theorem sub_mul_sub_comm (x y : Float) : (y - x) * (y - x) = (x - y) * (x - y) := by
  rcases sub_swap x.toModel.unpack y.toModel.unpack with hsame | hneg
  · rw [eq_of_unpack_eq (x := y - x) (y := x - y) (by rw [unpack_sub, unpack_sub, hsame])]
  · refine eq_of_unpack_eq ?_
    rw [unpack_mul, unpack_mul, unpack_sub, unpack_sub, hneg, unpack_pack_neg, mul_neg_neg]

end Likeness
