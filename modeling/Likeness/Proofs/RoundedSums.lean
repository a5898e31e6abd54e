import Likeness.Proofs.Quotients

/-!
# Rounded sums

A sum of doubles that are not negative, taken step by step, is off by a small part of the exact sum, whatever its order is.

* (one addition) it is changed by the `roundoff` at most, or the exact sum is above all doubles (`cases_add`).
* (sums) `Sums` says how far a sum may be off after a number of additions, and that it is infinite only if the exact sum is
  too great.  One addition keeps this (`Sums.add`), hence all of them do (`Sums.foldl`).
* (range) a sum is finite, or infinite, if the exact sum is not too near to the greatest double (`Sums.exists_valueOf?`,
  `Sums.eq_none`).
-/

namespace Likeness

open Float.Model
open Float.Model.UnpackedFloat hiding round normalize

/-! ### One addition -/

/-- The greatest part of a number that rounding it to 53 bits can change. -/
def roundoff : ℚ :=
  1 / 2 ^ 53

theorem roundoff_pos : 0 < roundoff := by
  unfold roundoff
  positivity

theorem roundoff_le_one : roundoff ≤ 1 := by
  unfold roundoff
  norm_num

/-- What has a mantissa and exponent of the right size is a double, or infinite. -/
private theorem valueOf?_or_infinity {x : Float} {n : Nat} {t : Int}
    (hx : x.toModel.unpack = unpack Format.binary64 (pack Format.binary64 (scaled .positive n t))) (hn : IsScaled n t) :
    valueOf? x = some ((n : ℚ) * 2 ^ t) ∨ x.toModel.unpack = .infinity .positive := by
  rcases n.eq_zero_or_pos with rfl | hpos
  · exact .inl (valueOf?_of_scaled hx hn isDouble_zero le_rfl (by simp))
  rcases Int.lt_or_le 971 t with hgreat | hle
  · refine .inr ?_
    have hfits : 2 ^ Format.binary64.exponentBits ≤
        (t + Format.binary64.exponentBias + Format.binary64.mantissaBitsWithoutImplicit).toNat + 1 := by
      change 2048 ≤ (t + 1023 + 52).toNat + 1
      omega
    rw [hx, scaled, dif_neg hpos.ne', UnpackedFloat.pack, if_pos hfits, packedInfinity, unpack_packComponents]
    rfl
  · have hcanonical : IsCanonical n t := ⟨hpos, hn.lt, hn.least, hle, hn.full⟩
    exact .inl (valueOf?_of_scaled hx hn (isDouble_of_isCanonical hcanonical) (by positivity) le_rfl)

theorem valueOf?_of_infinity {x : Float} {s : Sign} (h : x.toModel.unpack = .infinity s) : valueOf? x = none := by
  unfold valueOf?
  rw [h]

/-- A sum of two numbers that are not negative is changed by the roundoff at most, unless it is above all doubles. -/
theorem cases_add {x y : Float} {a b : ℚ} (hx : valueOf? x = some a) (hy : valueOf? y = some b) (ha : 0 ≤ a)
    (hb : 0 ≤ b) :
    (∃ v, valueOf? (x + y) = some v ∧ |v - (a + b)| ≤ roundoff * (a + b)) ∨
      (x + y).toModel.unpack = .infinity .positive ∧ ∀ c, IsDouble c → c < a + b := by
  have hexact : valueOf? (x + y) = some (a + b) →
      ∃ v, valueOf? (x + y) = some v ∧ |v - (a + b)| ≤ roundoff * (a + b) := by
    intro h
    refine ⟨_, h, ?_⟩
    rw [sub_self, abs_zero]
    exact mul_nonneg roundoff_pos.le (add_nonneg ha hb)
  rcases ha.eq_or_lt with rfl | hpos_a
  · exact .inl (hexact (valueOf?_add hx hy (by rw [zero_add]; exact hy)))
  rcases hb.eq_or_lt with rfl | hpos_b
  · exact .inl (hexact (valueOf?_add hx hy (by rw [add_zero]; exact hx)))
  obtain ⟨n, t, hn, _, _, hnear, hunpack⟩ := exists_scaled_add hx hy hpos_a hpos_b
  rcases valueOf?_or_infinity hunpack hn with hvalue | hinf
  · refine .inl ⟨_, hvalue, ?_⟩
    rw [← cast_mul_zpow] at hnear
    rw [roundoff, one_div_mul_eq_div]
    exact_mod_cast hnear
  · refine .inr ⟨hinf, fun c hc => ?_⟩
    by_contra hle
    obtain ⟨v, hv, _⟩ := exists_nearest_add hx hy ha hb hc (not_lt.1 hle)
    rw [valueOf?_of_infinity hinf] at hv
    cases hv

/-- What is infinite stays so. -/
private theorem infinity_add {x y : Float} {b : ℚ} (hx : x.toModel.unpack = .infinity .positive)
    (hy : valueOf? y = some b) : (x + y).toModel.unpack = .infinity .positive := by
  have hkeep : unpack Format.binary64 (pack Format.binary64 (.infinity .positive)) = .infinity .positive := by
    rw [UnpackedFloat.pack, packedInfinity, unpack_packComponents]
    rfl
  rw [unpack_add, hx]
  obtain ⟨s, huy, _⟩ | ⟨s, m, e, hm, huy, _⟩ := valueOf?_eq_some.1 hy <;> rw [huy] <;> exact hkeep

/-! ### Exact sums -/

/-- What a double stands for, and zero if it stands for no number. -/
def exactValue (x : Float) : ℚ :=
  (valueOf? x).getD 0

/-- The sum without any rounding. -/
def exactSum (xs : List Float) : ℚ :=
  (xs.map exactValue).sum

theorem exactValue_eq {x : Float} {a : ℚ} (h : valueOf? x = some a) : exactValue x = a := by
  rw [exactValue, h, Option.getD_some]

theorem exactSum_cons (x : Float) (xs : List Float) : exactSum (x :: xs) = exactValue x + exactSum xs := by
  rw [exactSum, List.map_cons, List.sum_cons, exactSum]

/-- A double that is not negative and not infinite. -/
def IsSummand (x : Float) : Prop :=
  ∃ a, valueOf? x = some a ∧ 0 ≤ a

theorem IsSummand.valueOf?_eq {x : Float} (h : IsSummand x) : valueOf? x = some (exactValue x) := by
  obtain ⟨a, ha, _⟩ := h
  rw [exactValue_eq ha, ha]

theorem IsSummand.exactValue_nonneg {x : Float} (h : IsSummand x) : 0 ≤ exactValue x := by
  obtain ⟨a, ha, hnonneg⟩ := h
  rwa [exactValue_eq ha]

section

variable {xs : List Float}

theorem exactSum_nonneg (hxs : ∀ x ∈ xs, IsSummand x) : 0 ≤ exactSum xs := by
  refine List.sum_nonneg fun a ha => ?_
  obtain ⟨x, hx, rfl⟩ := List.mem_map.1 ha
  exact (hxs x hx).exactValue_nonneg

theorem exactValue_le_exactSum (hxs : ∀ x ∈ xs, IsSummand x) {x : Float} (hx : x ∈ xs) : exactValue x ≤ exactSum xs := by
  refine List.single_le_sum (fun a ha => ?_) _ (List.mem_map_of_mem hx)
  obtain ⟨y, hy, rfl⟩ := List.mem_map.1 ha
  exact (hxs y hy).exactValue_nonneg

theorem exactSum_eq_zero_iff (hxs : ∀ x ∈ xs, IsSummand x) : exactSum xs = 0 ↔ ∀ x ∈ xs, valueOf? x = some 0 := by
  constructor
  · intro h x hx
    have hle := exactValue_le_exactSum hxs hx
    rw [h] at hle
    rw [(hxs x hx).valueOf?_eq, le_antisymm hle (hxs x hx).exactValue_nonneg]
  · intro h
    refine List.sum_eq_zero fun a ha => ?_
    obtain ⟨x, hx, rfl⟩ := List.mem_map.1 ha
    exact exactValue_eq (h x hx)

end

/-! ### Sums -/

/-- A double that may stand for a sum after a number of additions: each has changed the sum by the roundoff at most, or it
has led above all doubles. -/
inductive Sums (x : Float) (n : Nat) (s : ℚ) : Prop
  | finite (v : ℚ) (value : valueOf? x = some v) (low : (1 - roundoff) ^ n * s ≤ v) (high : v ≤ (1 + roundoff) ^ n * s)
  | infinite (unpack : x.toModel.unpack = .infinity .positive) (above : ∀ c, IsDouble c → c < (1 + roundoff) ^ n * s)

theorem Sums.of_valueOf? {x : Float} {a : ℚ} (h : valueOf? x = some a) : Sums x 0 a :=
  .finite a h (by simp) (by simp)

theorem Sums.add {x y : Float} {n : Nat} {s : ℚ} (h : Sums x n s) (hs : 0 ≤ s) (hsummand : IsSummand y) :
    Sums (x + y) (n + 1) (s + exactValue y) := by
  obtain ⟨b, hy, hb⟩ := hsummand
  rw [exactValue_eq hy]
  have hpos := roundoff_pos
  have hshrink : 0 ≤ 1 - roundoff := sub_nonneg.2 roundoff_le_one
  have hgrow : 1 ≤ 1 + roundoff := le_add_of_nonneg_right hpos.le
  have hmore : (1 + roundoff) ^ n * (s + b) ≤ (1 + roundoff) ^ (n + 1) * (s + b) := by
    gcongr
    exact Nat.le_succ n
  -- the new summand has been changed by fewer additions than the others
  have hb_low : (1 - roundoff) ^ n * b ≤ b := mul_le_of_le_one_left hb (pow_le_one₀ hshrink (by linarith))
  have hb_high : b ≤ (1 + roundoff) ^ n * b := le_mul_of_one_le_left hb (one_le_pow₀ hgrow)
  cases h with
  | infinite hinf habove =>
    refine .infinite (infinity_add hinf hy) fun c hc => ?_
    calc c
      _ < (1 + roundoff) ^ n * s := habove c hc
      _ ≤ (1 + roundoff) ^ n * (s + b) := by gcongr; exact le_add_of_nonneg_right hb
      _ ≤ (1 + roundoff) ^ (n + 1) * (s + b) := hmore
  | finite v hv hlow hhigh =>
    have hnonneg : 0 ≤ v := (mul_nonneg (pow_nonneg hshrink n) hs).trans hlow
    have hlow' : (1 - roundoff) ^ n * (s + b) ≤ v + b := by linarith
    have hhigh' : v + b ≤ (1 + roundoff) ^ n * (s + b) := by linarith
    rcases cases_add hv hy hnonneg hb with ⟨w, hw, hoff⟩ | ⟨hinf, habove⟩
    · obtain ⟨hle, hge⟩ := abs_le.1 hoff
      refine .finite w hw ?_ ?_
      · calc (1 - roundoff) ^ (n + 1) * (s + b)
          _ = (1 - roundoff) * ((1 - roundoff) ^ n * (s + b)) := by rw [pow_succ', mul_assoc]
          _ ≤ (1 - roundoff) * (v + b) := by gcongr
          _ ≤ w := by linarith
      · calc w
          _ ≤ (1 + roundoff) * (v + b) := by linarith
          _ ≤ (1 + roundoff) * ((1 + roundoff) ^ n * (s + b)) := by gcongr
          _ = (1 + roundoff) ^ (n + 1) * (s + b) := by rw [pow_succ', mul_assoc]
    · exact .infinite hinf fun c hc => (habove c hc).trans_le (hhigh'.trans hmore)

theorem Sums.foldl {xs : List Float} (hxs : ∀ x ∈ xs, IsSummand x) {start : Float} {n : Nat} {s : ℚ}
    (h : Sums start n s) (hs : 0 ≤ s) : Sums (xs.foldl (· + ·) start) (n + xs.length) (s + exactSum xs) := by
  induction xs generalizing start n s with
  | nil => simpa [exactSum] using h
  | cons x xs ih =>
    have hx := hxs x List.mem_cons_self
    have hrest := ih (fun y hy => hxs y (List.mem_cons_of_mem _ hy)) (h.add hs hx) (add_nonneg hs hx.exactValue_nonneg)
    rw [List.foldl_cons, List.length_cons, exactSum_cons]
    rwa [Nat.add_assoc, Nat.add_comm 1, add_assoc s] at hrest

/-- A sum that is finite is off by a part that the number of additions tells. -/
theorem Sums.abs_sub_le {x : Float} {n : Nat} {s v part : ℚ} (h : Sums x n s) (hs : 0 ≤ s) (hv : valueOf? x = some v)
    (hlow : 1 - part ≤ (1 - roundoff) ^ n) (hhigh : (1 + roundoff) ^ n ≤ 1 + part) : |v - s| ≤ part * s := by
  cases h with
  | infinite hinf _ =>
    rw [valueOf?_of_infinity hinf] at hv
    cases hv
  | finite w hw hle hge =>
    obtain rfl : w = v := Option.some.inj (hw.symm.trans hv)
    have hbelow := mul_le_mul_of_nonneg_right hlow hs
    have habove := mul_le_mul_of_nonneg_right hhigh hs
    rw [abs_le]
    constructor <;> linarith

/-! ### Range -/

/-- A sum is finite if the exact sum is some way below a double. -/
theorem Sums.exists_valueOf? {x : Float} {n : Nat} {s c : ℚ} (h : Sums x n s) (hc : IsDouble c)
    (hle : (1 + roundoff) ^ n * s ≤ c) : ∃ v, valueOf? x = some v := by
  cases h with
  | finite v hv _ _ => exact ⟨v, hv⟩
  | infinite _ habove => exact absurd hle (not_le.2 (habove c hc))

/-- A sum is infinite if the exact sum is some way above all doubles. -/
theorem Sums.valueOf?_eq_none {x : Float} {n : Nat} {s : ℚ} (h : Sums x n s) (hge : 2 ^ 1024 ≤ (1 - roundoff) ^ n * s) :
    valueOf? x = none := by
  cases h with
  | finite v hv hlow _ => exact absurd (lt_two_pow_of_isDouble ⟨_, hv⟩) (not_lt.2 (hge.trans hlow))
  | infinite hinf _ => exact valueOf?_of_infinity hinf

end Likeness
