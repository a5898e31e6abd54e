import Likeness.Proofs.Orders
import Likeness.Proofs.Range

/-!
# Reflexivity

A source is like itself, to the last bit: its cosines and its ratio of lengths are 1 and its distances 0.

* (cosines) the three sums of a cosine are the same double, and the root of its square is that double again, so that the
  quotient is 1 (`CosineSums.Sound.cosine_eq_one`).
* (tallies) the sums of a tally with itself have the same terms in the same order (`Tally.cosine?_self`).  They need not be
  exact for this, only the differences are (`Tally.distance?_self`).
* (grams) the sums of a list of grams with itself in another order are the same because they are exact
  (`GramCounts.cosine_of_perm`).
* (weighted sums) only the weights are left (`multiScaleBy_self`); `compareAnalyses_self` puts the aspects together.
-/

namespace Likeness

open Float.Model
open Float.Model.UnpackedFloat hiding round normalize

/-! ### Arithmetic -/

theorem float_mul_one {x : Float} {a : ℚ} (h : valueOf? x = some a) : x * 1.0 = x := by
  rcases eq_or_ne a 0 with rfl | hne
  · obtain ⟨s, hx, _⟩ | ⟨s, m, e, hm, hx, hzero⟩ := valueOf?_eq_some.1 h
    · refine eq_of_unpack_eq ?_
      cases s <;> rw [unpack_mul, hx] <;> rfl
    · have hpos : (0 : ℚ) < m * 2 ^ e := mul_pos (by exact_mod_cast hm.pos) (zpow_two_pos e)
      cases s <;> simp only [Sign.apply, Int.cast_neg, Int.cast_natCast] at hzero <;> linarith
  · have hsame : valueOf? x = some (a * 1) := by rw [mul_one, h]
    have hproduct := valueOf?_mul h valueOf?_one hsame
    rw [mul_one] at hproduct
    exact eq_of_valueOf?_eq hproduct h hne

theorem float_sub_self {x : Float} {a : ℚ} (h : valueOf? x = some a) : x - x = 0.0 := by
  refine eq_of_unpack_eq ?_
  rw [unpack_sub]
  obtain ⟨s, hx, _⟩ | ⟨s, m, e, hm, hx, _⟩ := valueOf?_eq_some.1 h <;> rw [hx]
  · cases s <;> rfl
  · simp only [UnpackedFloat.sub, Int.min_self, Int.sub_self]
    rfl

theorem lengthRatio_self {n : Nat} (h : n ≤ 2 ^ 53) : lengthRatio n n = 1.0 := by
  unfold lengthRatio
  rcases n.eq_zero_or_pos with rfl | hpos
  · rfl
  · have hne : n ≠ 0 := hpos.ne'
    rw [if_neg fun hboth => hne hboth.1, if_neg fun hone => hne (or_self_iff.1 hone), Nat.min_self, Nat.max_self]
    exact div_self_eq_one (valueOf?_lengthToFloat h) (by exact_mod_cast hpos)

/-! ### Cosines -/

private theorem cosineOfSums_self {x : Float} (h : IsNorm x) : cosineOfSums false false x x x = 1.0 := by
  obtain ⟨v, hv, hone, hle⟩ := h
  have hsquare := CosineSums.mul_le_two_pow (by linarith) hle hle
  change clampUnit (x / (x * x).sqrt) = 1.0
  rw [sqrt_mul_self hv hone (isDouble_two_pow (by decide)) hsquare, div_self_eq_one hv (by linarith)]
  rfl

/-- A cosine whose three sums are the same is 1. -/
theorem CosineSums.Sound.cosine_eq_one {s : CosineSums} (h : s.Sound) (hempty : s.isZeroB = s.isZeroA)
    (hdot : s.dot = s.normA) (hnorm : s.normB = s.normA) : s.cosine = 1.0 := by
  unfold cosine
  rw [hempty, hdot, hnorm]
  cases hA : s.isZeroA with
  | true => rfl
  | false => exact cosineOfSums_self (h.normA hA)

/-! ### Tallies -/

namespace Tally

private theorem slots_self (u : Tally) : u.slots u = u.counts.map fun n => (n.toFloat, n.toFloat) := by
  rw [slots, List.zip, List.zipWith_self, List.map_map]
  rfl

theorem cosine?_self (u : Tally) : u.cosine? u = some 1.0 := by
  rw [cosine?_eq_sums rfl, (sound_sums rfl).cosine_eq_one rfl]
  · simp only [sums, slots_self, List.foldl_map]
  · simp only [sums, slots_self, List.foldl_map]

private theorem foldl_add_zero (counts : List UInt32) :
    (counts.map fun _ => (0.0 : Float)).foldl (· + ·) 0.0 = 0.0 := by
  induction counts with
  | nil => rfl
  | cons n counts ih =>
    have hzero : (0.0 : Float) + 0.0 = 0.0 := rfl
    rw [List.map_cons, List.foldl_cons, hzero, ih]

theorem distance?_self {u : Tally} (h : u.dimension ≠ 0) : u.distance? u = some 0.0 := by
  have hterm : ∀ n : UInt32, (n.toFloat - n.toFloat) * (n.toFloat - n.toFloat) = 0.0 := fun n => by
    rw [float_sub_self (valueOf?_toFloat n)]
    rfl
  obtain ⟨n, counts, hcounts⟩ := List.exists_cons_of_ne_nil (List.ne_nil_of_length_pos (Nat.pos_of_ne_zero h))
  -- the sum starts at negative zero, and the first slot turns this into zero
  have hsum : sum ((u.slots u).map fun slot => (slot.1 - slot.2) * (slot.1 - slot.2)) = 0.0 := by
    have hfirst : (-0.0 : Float) + 0.0 = 0.0 := rfl
    simp only [slots_self, List.map_map, Function.comp_def, hterm, sum, hcounts, List.map_cons, List.foldl_cons, hfirst]
    exact foldl_add_zero counts
  rw [distance?, if_pos rfl]
  exact congrArg (fun total : Float => some total.sqrt) hsum

end Tally

private theorem tallyCosine_self (u : Tally) : tallyCosine u u = .ok 1.0 := by
  simp only [tallyCosine, Tally.cosine?_self]

private theorem tallyDistance_self {u : Tally} (h : u.dimension ≠ 0) : tallyDistance u u = .ok 0.0 := by
  simp only [tallyDistance, Tally.distance?_self h]

/-! ### Grams -/

namespace GramCounts

theorem wholeDot_self {a : GramCounts} (distinct : a.Pairwise (·.1 ≠ ·.1)) : a.wholeDot a = a.wholeNorm := by
  unfold wholeDot wholeNorm
  refine congrArg List.sum (List.map_congr_left fun (key, n) hentry => ?_)
  rw [occurrences_of_mem distinct hentry]

/-- Grams that are listed in two orders have the cosine 1. -/
theorem cosine_of_perm {a b : GramCounts} (hmoderate : a.Moderate) (hhollow : ¬ a.IsHollow) (hperm : a.Perm b) :
    a.cosine b = 1.0 := by
  rw [hmoderate.cosine_eq (hmoderate.perm hperm.symm), wholeCosine, ← wholeDot_perm hmoderate.distinct (.refl a) hperm,
    wholeDot_self hmoderate.distinct, ← wholeNorm_perm hperm, ← hperm.isEmpty_eq]
  cases hempty : a.isEmpty with
  | true => rfl
  | false =>
    have hnorm := isNorm_squaredNorm (not_isZero_of_not_isHollow hhollow hempty) (valueOf?_lengthToFloat (Nat.zero_le _))
    rw [← zero_eq_lengthToFloat, squaredNorm_zero hmoderate.wholeNorm_le] at hnorm
    exact cosineOfSums_self hnorm

end GramCounts

/-- The grams of a sequence of moderate length, listed in any two orders. -/
theorem cosine_gramCounts_self {sequence : List Token} (h : sequence.length ≤ 94906265) {width : Nat} {a b : GramCounts}
    (ha : a.Perm (gramCounts width sequence)) (hb : b.Perm (gramCounts width sequence)) : a.cosine b = 1.0 :=
  GramCounts.cosine_of_perm ((moderate_gramCounts h width).perm ha)
    ((isProfile_gramCounts width (h.trans_lt (by decide))).perm ha).not_isHollow (ha.trans hb.symm)

/-! ### Comparisons -/

/-- The score of a sequence compared with itself: the weights of the scales, added up and clamped. -/
def fullScore (scales : List Scale) : Float :=
  clampUnit (scales.foldl (fun s scale => s + scale.weight) 0.0)

theorem multiScaleBy_self (orders : ScaleOrders) {sequence : List Token} (h : sequence.length ≤ 94906265)
    {scales : List Scale} (hscales : ∀ scale ∈ scales, scale.width ≠ 0 ∧ ¬ Unusable scale.weight) :
    multiScaleBy orders sequence sequence scales = .ok ⟨fullScore scales, scales.map fun scale => ⟨scale.width, 1.0⟩⟩ := by
  have hscore : ∀ width, orders.cosine sequence sequence width = 1.0 :=
    fun width => cosine_gramCounts_self h ((orders.left width).perm _) ((orders.right width).perm _)
  have hsum : ∀ start : Float, (scales.zip (scales.map fun scale => ScaleScore.mk scale.width 1.0)).foldl
      (fun s pair => s + pair.1.weight * pair.2.score) start = scales.foldl (fun s scale => s + scale.weight) start := by
    induction scales with
    | nil => exact fun start => rfl
    | cons scale scales ih =>
      intro start
      obtain ⟨a, ha, _⟩ := exists_valueOf?_of_not_unusable (hscales scale List.mem_cons_self).2
      rw [List.map_cons, List.zip_cons_cons, List.foldl_cons, List.foldl_cons, float_mul_one ha]
      exact ih (fun other hother => hscales other (List.mem_cons_of_mem _ hother)) _
  rw [multiScaleBy_eq _ _ _ fun scale hscale => (hscales scale hscale).1]
  simp only [hscore, hsum, fullScore]

/-- The weights of the scales in use add up to 1. -/
example : fullScore identifierScales = 1.0 ∧ fullScore sequenceScales = 1.0 := by decide +kernel

/-- A source of moderate length compared with itself, whatever the weights, as long as they can be used, and whatever the orders
in which grams are visited.  All cosines are 1, also those of widths for which the source is too short and those of grams that
are listed in two different orders; the distances are 0, and the scores that are left are made of weights only. -/
theorem compareAnalyses_self (orders : GramOrders) {weights : Weights} (hweights : ∀ aspect, ¬ Unusable (weights.get aspect)) {source : List Char}
    (h : (Analysis.ofSource source).tokenCount ≤ 94906265) :
    let u := Analysis.ofSource source
    let scores : Scores := ⟨1.0, fullScore identifierScales, 1.0, fullScore sequenceScales, 1.0⟩
    compareAnalysesBy orders weights u u = .ok {
        scores
        sequenceScales := sequenceScales.map fun scale => ⟨scale.width, 1.0⟩
        identifierScales := identifierScales.map fun scale => ⟨scale.width, 1.0⟩
        tokensA := u.tokenCount
        tokensB := u.tokenCount
        keywordDistance := 0.0
        operatorDistance := 0.0
        total := clampUnit (weights.fuse scores) } ∧
      ∀ (width : Nat) (a b : GramCounts),
        (a.Perm (gramCounts width u.identifiers) ∧ b.Perm (gramCounts width u.identifiers)) ∨
          (a.Perm (gramCounts width u.normalized) ∧ b.Perm (gramCounts width u.normalized)) → a.cosine b = 1.0 := by
  intro u scores
  have hidentifiers : u.identifiers.length ≤ 94906265 := (Analysis.isModerate_ofSource h).identifiers
  have hnormalized : u.normalized.length ≤ 94906265 := (Analysis.isModerate_ofSource h).normalized
  have hkeywords : u.keywords.dimension = keywords.length := by simp [u, Analysis.ofSource, Analysis.ofTokens, keywordTally]
  have hoperators : u.operators.dimension = operators.length := by
    simp [u, Analysis.ofSource, Analysis.ofTokens, operatorTally]
  constructor
  · refine compareAnalysesBy_eq_ok_iff.2 ⟨?_, ?_, ?_, ?_, ?_, ?_, rfl, rfl, ?_, ?_, rfl⟩
    · exact Weights.check_eq_ok_iff.2 (Weights.fault?_eq_none_iff.2 hweights)
    · exact tallyCosine_self _
    · exact tallyCosine_self _
    · dsimp only [scores]
      exact multiScaleBy_self orders.identifiers hidentifiers usable_identifierScales
    · dsimp only [scores]
      exact multiScaleBy_self orders.normalized hnormalized usable_sequenceScales
    · exact (lengthRatio_self (h.trans (by decide))).symm
    · exact tallyDistance_self (hkeywords.trans_ne (by decide))
    · exact tallyDistance_self (hoperators.trans_ne (by decide))
  · rintro width a b (⟨ha, hb⟩ | ⟨ha, hb⟩)
    · exact cosine_gramCounts_self hidentifiers ha hb
    · exact cosine_gramCounts_self hnormalized ha hb

/-- A source that is too short for most widths, under weights of very different sizes, negative zero among them. -/
theorem comparison_with_itself :
    let u := Analysis.ofSource "x = y + 1;".toList
    let weights : Weights := ⟨-0.0, 1e308, 0.0, 0.5, 1.0⟩
    u.tokenCount = 5 ∧ gramCounts 8 u.normalized = [] ∧
      ∃ c, compareAnalyses weights u u = .ok c ∧ c.sequenceAt? 8 = some 1.0 ∧ c.keywordDistance = 0.0 := by
  intro u weights
  have hcount : u.tokenCount = 5 := by decide +kernel
  have husable : ∀ aspect, ¬ Unusable (weights.get aspect) := by
    simp only [← isUsable_eq_false_iff]
    intro aspect
    cases aspect <;> decide +kernel
  have hself := (compareAnalyses_self .asListed husable (hcount.trans_le (by decide))).1
  have hshort : gramCounts 8 u.normalized = [] := by decide +kernel
  exact ⟨hcount, hshort, _, hself, rfl, rfl⟩

end Likeness
