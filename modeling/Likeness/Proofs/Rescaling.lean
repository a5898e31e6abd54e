import Likeness.Proofs.Comparing
import Likeness.Proofs.RoundedSums

/-!
# Rescaled weights

Weights that can be used are divided by their sum, so that they add up to 1, unless all of them are zero.

* (quotients) a quotient below 2 is off by 2^-52 at most (`KeepsSides.abs_sub_le`), and what is divided by infinity is zero.
* (sums) the sum of five weights is finite, or infinite, as the exact sum tells; it is not above zero exactly if all weights
  are zero (`total_le_zero_iff`).
* (shares) `Rescales` is what rescaling is for.  It succeeds if the sum is finite (`rescales_of_isFinite`), and if the sum is
  infinite all weights become zero (`allZero_quotients`).
* `normalized_fails_or_rescales` puts the parts together.
-/

namespace Likeness

open Float.Model
open Float.Model.UnpackedFloat hiding round normalize

/-! ### Quotients -/

theorem isDouble_two : IsDouble 2 := by
  have hdouble := @isDouble_mul_two_zpow 2 0 (by decide) (by decide) (by decide)
  rwa [zpow_zero, mul_one] at hdouble

/-- Between 0 and 2 the doubles are not farther apart than 2^-52. -/
theorem KeepsSides.abs_sub_le {q v : ℚ} (h : KeepsSides q v) (hq : 0 ≤ q) (hlt : q < 2) : |v - q| ≤ 1 / 2 ^ 52 := by
  have hgrid : ∀ {k : Nat}, k ≤ 2 ^ 53 → IsDouble (k * 2 ^ (-52 : Int)) := fun hk =>
    isDouble_mul_two_zpow hk (by decide) (by decide)
  have hunit : (2 : ℚ) ^ (-52 : Int) = 1 / 2 ^ 52 := by norm_num
  obtain ⟨k, hk⟩ : ∃ k, k = ⌊q * 2 ^ 52⌋₊ := ⟨_, rfl⟩
  have hlow : (k : ℚ) ≤ q * 2 ^ 52 := hk ▸ Nat.floor_le (by positivity)
  have hhigh : q * 2 ^ 52 < k + 1 := hk ▸ Nat.lt_floor_add_one _
  have hfits : k + 1 ≤ 2 ^ 53 := by
    have : (k : ℚ) < (2 ^ 53 : Nat) := by
      push_cast
      linarith
    exact_mod_cast this
  have hbelow := h.le_of_ge (hgrid (Nat.le_of_succ_le hfits)) (by rw [hunit]; linarith)
  have habove := h.le_of_le (hgrid hfits) (by positivity) (by rw [hunit]; push_cast; linarith)
  rw [hunit] at hbelow habove
  push_cast at habove
  rw [abs_le]
  constructor <;> linarith

theorem valueOf?_div_infinity {x y : Float} {a : ℚ} (hx : valueOf? x = some a)
    (hy : y.toModel.unpack = .infinity .positive) : valueOf? (x / y) = some 0 := by
  have hunpack := unpack_div x y
  rw [hy] at hunpack
  refine valueOf?_eq_some.2 (.inl ?_)
  obtain ⟨s, hux, _⟩ | ⟨s, m, e, hm, hux, _⟩ := valueOf?_eq_some.1 hx <;> rw [hux] at hunpack <;>
    exact ⟨_, hunpack.trans unpack_packedZero, rfl⟩

/-! ### Sums -/

/-- The doubles that can be weights are those that are finite and not negative. -/
theorem isSummand_iff_not_unusable {x : Float} : IsSummand x ↔ ¬ Unusable x := by
  refine ⟨?_, exists_valueOf?_of_not_unusable⟩
  rintro ⟨a, ha, hnonneg⟩ (hnan | hinf | hlt)
  · rw [isNaN_of_zero_le ((zero_le_of_valueOf? ha).2 hnonneg)] at hnan
    cases hnan
  · have hfinite := isFinite_iff.2 ⟨a, ha⟩
    rw [isFinite_eq_false_iff.2 (.inr hinf)] at hfinite
    cases hfinite
  · exact not_lt.2 hnonneg ((float_lt_iff ha rfl).1 hlt)

namespace Weights

/-- All weights are zero, whatever their signs are. -/
def AllZero (w : Weights) : Prop :=
  ∀ a, valueOf? (w.get a) = some 0

/-- The sum of the weights, without any rounding. -/
def exactTotal (w : Weights) : ℚ :=
  exactSum w.toList

section

variable {w : Weights}

theorem forall_mem_toList {p : Float → Prop} : (∀ x ∈ w.toList, p x) ↔ ∀ a, p (w.get a) := by
  rw [ByAspect.toList, List.forall_mem_map]
  exact ⟨fun h a => h a a.mem_all, fun h a _ => h a⟩

theorem check_eq_ok_iff_isSummand : w.check = .ok () ↔ ∀ a, IsSummand (w.get a) := by
  rw [check_eq_ok_iff_forall]
  exact forall_congr' fun _ => isSummand_iff_not_unusable.symm

theorem AllZero.check_eq_ok (h : w.AllZero) : w.check = .ok () :=
  check_eq_ok_iff_isSummand.2 fun a => ⟨0, h a, le_rfl⟩

theorem forall_isSummand (h : w.check = .ok ()) : ∀ x ∈ w.toList, IsSummand x :=
  forall_mem_toList.2 (check_eq_ok_iff_isSummand.1 h)

theorem sums_total (h : w.check = .ok ()) : Sums w.total 5 w.exactTotal := by
  have hstart : valueOf? (-0.0) = some 0 := rfl
  have hsum := Sums.foldl (forall_isSummand h) (.of_valueOf? hstart) le_rfl
  rwa [zero_add, zero_add] at hsum

theorem exactTotal_nonneg (h : w.check = .ok ()) : 0 ≤ w.exactTotal :=
  exactSum_nonneg (forall_isSummand h)

theorem exactTotal_eq_zero_iff (h : w.check = .ok ()) : w.exactTotal = 0 ↔ w.AllZero :=
  (exactSum_eq_zero_iff (forall_isSummand h)).trans forall_mem_toList

theorem zero_le_total (h : w.check = .ok ()) : 0.0 ≤ w.total := by
  have hstart : (0.0 : Float) ≤ -0.0 := by decide
  refine List.foldlRecOn _ _ hstart fun s hs x hx => zero_le_add hs ?_
  obtain ⟨a, ha, hnonneg⟩ := forall_isSummand h x hx
  exact (zero_le_of_valueOf? ha).2 hnonneg

/-- Five additions change the sum by one part in 2^50 at most. -/
theorem abs_total_sub_le (h : w.check = .ok ()) {t : ℚ} (ht : valueOf? w.total = some t) :
    |t - w.exactTotal| ≤ 1 / 2 ^ 50 * w.exactTotal := by
  refine (sums_total h).abs_sub_le (exactTotal_nonneg h) ht ?_ ?_ <;> norm_num [roundoff]

/-- The sum of usable weights is above zero unless all of them are zero. -/
theorem total_le_zero_iff (h : w.check = .ok ()) : w.total ≤ 0.0 ↔ w.AllZero := by
  rw [← exactTotal_eq_zero_iff h]
  constructor
  · intro hle
    obtain ⟨t, ht, hnonneg, hle_zero⟩ := exists_valueOf?_of_le (zero_le_total h) hle (rfl : valueOf? 0.0 = some 0)
    have hoff := (abs_le.1 (abs_total_sub_le h ht)).1
    have hsum := exactTotal_nonneg h
    linarith
  · intro hzero
    obtain ⟨t, ht⟩ := (sums_total h).exists_valueOf? isDouble_zero (by rw [hzero, mul_zero])
    have hoff := abs_total_sub_le h ht
    rw [hzero, sub_zero, mul_zero] at hoff
    exact (float_le_iff ht rfl).2 ((le_abs_self t).trans hoff)

/-- The unit of the greatest doubles. -/
private theorem exists_unit :
    ∃ unit : ℚ, 0 < unit ∧ 2 ^ 1024 = 2 ^ 53 * unit ∧ 2 ^ 975 = 2 ^ 4 * unit ∧ (2 : ℚ) ^ (971 : Int) = unit :=
  ⟨2 ^ 971, by positivity, pow_add 2 53 971, pow_add 2 4 971, zpow_natCast 2 971⟩

theorem isFinite_total_of_le (h : w.check = .ok ()) (hle : w.exactTotal ≤ 2 ^ 1024 - 2 ^ 975) : w.total.isFinite = true := by
  have hgreatest : IsCanonical (2 ^ 53 - 1) 971 := ⟨by omega, by omega, by omega, by omega, .inl (by omega)⟩
  refine isFinite_iff.2 ((sums_total h).exists_valueOf? (isDouble_of_isCanonical hgreatest) ?_)
  obtain ⟨unit, hunit, hlimit, hmargin, hpower⟩ := exists_unit
  rw [hlimit, hmargin] at hle
  rw [hpower]
  calc (1 + roundoff) ^ 5 * w.exactTotal
    _ ≤ (1 + 1 / 2 ^ 50) * (2 ^ 53 * unit - 2 ^ 4 * unit) := by
      gcongr
      · exact exactTotal_nonneg h
      · norm_num [roundoff]
    _ ≤ (2 ^ 53 - 1 : Nat) * unit := by
      push_cast
      linarith only [hunit]

theorem isFinite_total_of_ge (h : w.check = .ok ()) (hge : 2 ^ 1024 + 2 ^ 975 ≤ w.exactTotal) :
    w.total.isFinite = false := by
  have hnone : valueOf? w.total = none := by
    refine (sums_total h).valueOf?_eq_none ?_
    obtain ⟨unit, hunit, hlimit, hmargin, _⟩ := exists_unit
    rw [hlimit, hmargin] at hge
    rw [hlimit]
    calc 2 ^ 53 * unit
      _ ≤ (1 - 1 / 2 ^ 50) * (2 ^ 53 * unit + 2 ^ 4 * unit) := by linarith only [hunit]
      _ ≤ (1 - roundoff) ^ 5 * w.exactTotal := by
        gcongr
        · exact pow_nonneg (sub_nonneg.2 roundoff_le_one) 5
        · norm_num [roundoff]
  rw [Bool.eq_false_iff, Ne, isFinite_iff, hnone]
  rintro ⟨_, hvalue⟩
  cases hvalue

/-! ### Shares -/

/-- What weights are rescaled for: the new weights can be used, each is about the share that the old one had in the exact
sum, and they add up to about 1, exactly as well as rounded. -/
structure Rescales (w n : Weights) : Prop where
  usable : n.check = .ok ()
  share : ∀ a, |exactValue (n.get a) - exactValue (w.get a) / w.exactTotal| ≤ 1 / 10 ^ 9
  not_allZero : ¬ n.AllZero
  exact_sum : |n.exactTotal - 1| ≤ 1 / 10 ^ 9
  rounded_sum : ∃ t, valueOf? n.total = some t ∧ |t - 1| ≤ 1 / 10 ^ 9

/-- The quotients of the weights and their sum. -/
def quotients (w : Weights) : Weights :=
  .ofFn fun a => w.get a / w.total

/-- A quotient is near to the share that the weight has in the exact sum. -/
theorem exists_share (h : w.check = .ok ()) (hpos : 0 < w.exactTotal) {t : ℚ} (ht : valueOf? w.total = some t)
    (a : Aspect) :
    ∃ v, valueOf? (w.quotients.get a) = some v ∧ 0 ≤ v ∧ |v - exactValue (w.get a) / w.exactTotal| ≤ 1 / 2 ^ 48 := by
  obtain ⟨s, hs⟩ : ∃ s, s = w.exactTotal := ⟨_, rfl⟩
  obtain ⟨x, hx, hnonneg⟩ := check_eq_ok_iff_isSummand.1 h a
  have hx_le : exactValue (w.get a) ≤ w.exactTotal :=
    exactValue_le_exactSum (forall_isSummand h) (List.mem_map_of_mem a.mem_all)
  have hoff := abs_total_sub_le h ht
  rw [exactValue_eq hx] at hx_le ⊢
  rw [← hs] at hpos hoff hx_le ⊢
  have htwice : s < 2 * t := by
    have := (abs_le.1 hoff).1
    linarith
  have hpos_t : 0 < t := by linarith
  have hlt : x / t < 2 := by
    rw [div_lt_iff₀ hpos_t]
    linarith
  obtain ⟨v, hv, hsides⟩ := exists_valueOf?_div hx ht hnonneg hpos_t isDouble_two hlt.le
  have hnear := hsides.abs_sub_le (by positivity) hlt
  -- dividing by the rounded sum instead of the exact one
  have hexact : |x / t - x / s| ≤ 1 / 2 ^ 49 := by
    have hsplit : x / t - x / s = x / s * ((s - t) / t) := by
      field_simp
    rw [hsplit, abs_mul, abs_of_nonneg (by positivity : 0 ≤ x / s), abs_div, abs_of_pos hpos_t, abs_sub_comm s]
    calc x / s * (|t - s| / t)
      _ ≤ 1 * (1 / 2 ^ 50 * s / t) := by
        gcongr
        exact (div_le_one hpos).2 hx_le
      _ ≤ 1 / 2 ^ 49 := by
        rw [one_mul, div_le_iff₀ hpos_t]
        linarith
  refine ⟨v, by rw [quotients, ByAspect.get_ofFn]; exact hv, by exact_mod_cast hsides.nonneg, ?_⟩
  have htriangle := abs_sub_le v (x / t) (x / s)
  linarith

theorem exactTotal_eq (w : Weights) :
    w.exactTotal = exactValue w.keyword + exactValue w.identifier + exactValue w.operator + exactValue w.sequence +
      exactValue w.length := by
  simp only [exactTotal, exactSum, ByAspect.toList, Aspect.all, List.map_cons, List.map_nil, List.sum_cons, List.sum_nil,
    add_zero, add_assoc]
  rfl

/-- Weights near to the shares add up to about 1. -/
theorem abs_exactTotal_sub_le {n : Weights} (hpos : 0 < w.exactTotal)
    (hshare : ∀ a, |exactValue (n.get a) - exactValue (w.get a) / w.exactTotal| ≤ 1 / 2 ^ 48) :
    |n.exactTotal - 1| ≤ 5 / 2 ^ 48 := by
  have hshares : exactValue w.keyword / w.exactTotal + exactValue w.identifier / w.exactTotal +
      exactValue w.operator / w.exactTotal + exactValue w.sequence / w.exactTotal +
        exactValue w.length / w.exactTotal = 1 := by
    rw [← add_div, ← add_div, ← add_div, ← add_div, ← exactTotal_eq, div_self hpos.ne']
  have hkeyword := abs_le.1 (hshare .keyword)
  have hidentifier := abs_le.1 (hshare .identifier)
  have hoperator := abs_le.1 (hshare .operator)
  have hsequence := abs_le.1 (hshare .sequence)
  have hlength := abs_le.1 (hshare .length)
  simp only [ByAspect.get] at hkeyword hidentifier hoperator hsequence hlength
  rw [n.exactTotal_eq, abs_le]
  constructor <;> linarith

theorem rescales_of_isFinite (h : w.check = .ok ()) (hne : ¬ w.AllZero) (hfinite : w.total.isFinite = true) :
    w.Rescales w.quotients := by
  have hpos : 0 < w.exactTotal :=
    lt_of_le_of_ne (exactTotal_nonneg h) fun hzero => hne ((exactTotal_eq_zero_iff h).1 hzero.symm)
  obtain ⟨t, ht⟩ := isFinite_iff.1 hfinite
  have husable : w.quotients.check = .ok () := check_eq_ok_iff_isSummand.2 fun a => by
    obtain ⟨v, hv, hnonneg, _⟩ := exists_share h hpos ht a
    exact ⟨v, hv, hnonneg⟩
  have hshare : ∀ a, |exactValue (w.quotients.get a) - exactValue (w.get a) / w.exactTotal| ≤ 1 / 2 ^ 48 := by
    intro a
    obtain ⟨v, hv, _, hnear⟩ := exists_share h hpos ht a
    rwa [exactValue_eq hv]
  have hexact := abs_exactTotal_sub_le hpos hshare
  have hhigh : w.quotients.exactTotal ≤ 1 + 5 / 2 ^ 48 := by
    have := (abs_le.1 hexact).2
    linarith
  have hlow : 1 - 5 / 2 ^ 48 ≤ w.quotients.exactTotal := by
    have := (abs_le.1 hexact).1
    linarith
  refine ⟨husable, fun a => (hshare a).trans (by norm_num), ?_, hexact.trans (by norm_num), ?_⟩
  · intro hzero
    rw [(exactTotal_eq_zero_iff husable).2 hzero] at hlow
    norm_num at hlow
  · -- the new weights are added up as the old ones were
    obtain ⟨v, hv⟩ := (sums_total husable).exists_valueOf? isDouble_two (by norm_num [roundoff]; linarith)
    have hoff := abs_le.1 (abs_total_sub_le husable hv)
    refine ⟨v, hv, ?_⟩
    rw [abs_le]
    constructor <;> linarith

/-- If the sum is infinite, nothing is left of the weights. -/
theorem allZero_quotients (h : w.check = .ok ()) (hinf : w.total.isFinite = false) : w.quotients.AllZero := by
  intro a
  rw [quotients, ByAspect.get_ofFn]
  cases sums_total h with
  | finite v hv _ _ =>
    rw [isFinite_iff.2 ⟨v, hv⟩] at hinf
    cases hinf
  | infinite hunpack _ => exact valueOf?_div_infinity (check_eq_ok_iff_isSummand.1 h a).valueOf?_eq hunpack

theorem normalized_eq_of_check (h : w.check = .ok ()) :
    w.normalized = if w.total <= 0.0 then .error (.weights .allZero) else .ok w.quotients := by
  rw [normalized, h]
  rfl

theorem normalized_eq_of_fault {fault : WeightFault} (h : w.fault? = some fault) :
    w.normalized = .error (.weights fault) := by
  rw [normalized, check, h]

theorem normalized_eq_error_iff {failure : Failure} :
    w.normalized = .error failure ↔
      (∃ a, w.FirstFault a ∧ failure = .weights (.unusable a (w.get a))) ∨ w.AllZero ∧ failure = .weights .allZero := by
  cases hfault : w.fault? with
  | some fault =>
    have hzero : ¬ w.AllZero := fun h => by
      rw [check_eq_ok_iff.1 h.check_eq_ok] at hfault
      cases hfault
    rw [normalized_eq_of_fault hfault, exists_firstFault_iff hfault, or_iff_left fun h => hzero h.1, Except.error.injEq,
      eq_comm]
  | none =>
    have hcheck := check_eq_ok_iff.2 hfault
    rw [or_iff_right (not_exists_firstFault hfault), normalized_eq_of_check hcheck, ← total_le_zero_iff hcheck]
    by_cases hle : w.total ≤ 0.0
    · rw [if_pos hle, and_iff_right hle, Except.error.injEq, eq_comm]
    · rw [if_neg hle]
      exact iff_of_false (by rintro ⟨⟩) fun h => hle h.1

end

/-- Rescaling fails exactly if a weight cannot be used, which the failure names, or if all weights are zero.  Otherwise it
gives weights that can be used, and rescales if and only if the sum of the weights is finite, which the exact sum decides but
for a small range; if the sum is infinite all weights become zero. -/
theorem normalized_fails_or_rescales (w : Weights) :
    (∀ failure, w.normalized = .error failure ↔
      (∃ a, w.FirstFault a ∧ failure = .weights (.unusable a (w.get a))) ∨ w.AllZero ∧ failure = .weights .allZero) ∧
    ((∃ failure, w.normalized = .error failure) ↔ w.check ≠ .ok () ∨ w.AllZero) ∧
    (w.check = .ok () → ¬ w.AllZero → ∃ n, w.normalized = .ok n ∧ n.check = .ok () ∧
      (w.Rescales n ↔ w.total.isFinite = true) ∧ (n.AllZero ↔ w.total.isFinite = false)) ∧
    (w.check = .ok () → (w.exactTotal ≤ 2 ^ 1024 - 2 ^ 975 → w.total.isFinite = true) ∧
      (2 ^ 1024 + 2 ^ 975 ≤ w.exactTotal → w.total.isFinite = false)) := by
  refine ⟨fun failure => normalized_eq_error_iff, ?_, fun hcheck hne => ?_,
    fun hcheck => ⟨isFinite_total_of_le hcheck, isFinite_total_of_ge hcheck⟩⟩
  · constructor
    · rintro ⟨failure, h⟩
      rcases normalized_eq_error_iff.1 h with ⟨a, ha, _⟩ | ⟨hzero, _⟩
      · exact .inl fun hcheck => check_eq_ok_iff_forall.1 hcheck a ha.unusable
      · exact .inr hzero
    · rintro (hcheck | hzero)
      · cases hfault : w.fault? with
        | none => exact absurd (check_eq_ok_iff.2 hfault) hcheck
        | some fault => exact ⟨_, normalized_eq_of_fault hfault⟩
      · exact ⟨_, normalized_eq_error_iff.2 (.inr ⟨hzero, rfl⟩)⟩
  · have hquotients : w.normalized = .ok w.quotients := by
      rw [normalized_eq_of_check hcheck, if_neg fun hle => hne ((total_le_zero_iff hcheck).1 hle)]
    refine ⟨_, hquotients, ?_⟩
    cases hfinite : w.total.isFinite with
    | true =>
      have hrescales := rescales_of_isFinite hcheck hne hfinite
      exact ⟨hrescales.usable, iff_of_true hrescales rfl, iff_of_false hrescales.not_allZero Bool.noConfusion⟩
    | false =>
      have hzero := allZero_quotients hcheck hfinite
      exact ⟨hzero.check_eq_ok, iff_of_false (fun h => h.not_allZero hzero) Bool.noConfusion, iff_of_true hzero rfl⟩

/-- The smallest weights, with zeros of both signs, and weights whose sum is just below the greatest doubles. -/
theorem rescales_small_and_great_weights :
    let small : Weights := ⟨5e-324, -0.0, 5e-324, 0.0, 5e-324⟩
    let great : Weights := ⟨1e308, 0.0, 5e-324, -0.0, 7e307⟩
    (∃ n, small.normalized = .ok n ∧ small.Rescales n) ∧ ∃ n, great.normalized = .ok n ∧ great.Rescales n := by
  intro small great
  have hsmall : small.check = .ok () := check_eq_ok_iff.2 (Option.isNone_iff_eq_none.1 (by decide +kernel))
  have hgreat : great.check = .ok () := check_eq_ok_iff.2 (Option.isNone_iff_eq_none.1 (by decide +kernel))
  have hsmall_ne : ¬ small.AllZero := fun h => absurd ((total_le_zero_iff hsmall).2 h) (by decide +kernel)
  have hgreat_ne : ¬ great.AllZero := fun h => absurd ((total_le_zero_iff hgreat).2 h) (by decide +kernel)
  obtain ⟨n, hn, _, hrescales, _⟩ := (normalized_fails_or_rescales small).2.2.1 hsmall hsmall_ne
  obtain ⟨m, hm, _, hrescales', _⟩ := (normalized_fails_or_rescales great).2.2.1 hgreat hgreat_ne
  exact ⟨⟨n, hn, hrescales.2 (by decide +kernel)⟩, m, hm, hrescales'.2 (by decide +kernel)⟩

/-- Five weights of 1e308 can be used, but their sum is infinite and all of them become zero. -/
theorem not_rescales_great_weights :
    let w : Weights := .ofFn fun _ => 1e308
    w.check = .ok () ∧ ¬ w.AllZero ∧ w.normalized = .ok (.ofFn fun _ => 0.0) ∧ ¬ w.Rescales (.ofFn fun _ => 0.0) := by
  intro w
  have hcheck : w.check = .ok () := check_eq_ok_iff.2 (Option.isNone_iff_eq_none.1 (by decide +kernel))
  have hzero : AllZero (.ofFn fun _ => 0.0) := fun a => by
    rw [ByAspect.get_ofFn]
    rfl
  refine ⟨hcheck, fun h => absurd ((total_le_zero_iff hcheck).2 h) (by decide +kernel), ?_, fun h => h.not_allZero hzero⟩
  have hquotient : (1e308 : Float) / w.total = 0.0 := by decide +kernel
  have hquotients : w.quotients = .ofFn fun _ => 0.0 := by
    rw [quotients]
    congr 1
    funext a
    rw [ByAspect.get_ofFn]
    exact hquotient
  rw [normalized_eq_of_check hcheck, if_neg (by decide +kernel), hquotients]

end Weights

end Likeness
