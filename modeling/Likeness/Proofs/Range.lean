import Likeness.Proofs.Comparing
import Likeness.Proofs.Counting
import Likeness.Proofs.GramSums
import Likeness.Proofs.Names

/-!
# The range of scores

Every score of a comparison is a number between 0 and 1.

* (clamping) `clampUnit` brings every number into this range, so that it is enough that nothing on the way is no number.
* (norms) a sum of squares of counts is at least 1 if something has been counted, and stays far below infinity, although it
  need not be exact (`squares_bounds`).  So no cosine divides by zero (`CosineSums.Sound.inUnit_cosine`).
* (sums) a weighted sum of scores may be infinite, but it is a number (`inUnit_fuse`, `multiScaleBy_inRange`).
* `comparison_fails_or_inRange` puts the parts together.
-/

namespace Likeness

/-! ### Clamping -/

/-- A number between 0 and 1. -/
def InUnit (x : Float) : Prop :=
  0.0 ≤ x ∧ x ≤ 1.0

theorem inUnit_zero : InUnit 0.0 := by
  unfold InUnit
  decide

theorem inUnit_one : InUnit 1.0 := by
  unfold InUnit
  decide

theorem InUnit.exists_valueOf? {x : Float} (h : InUnit x) : ∃ a, valueOf? x = some a ∧ 0 ≤ a ∧ a ≤ 1 :=
  exists_valueOf?_of_le h.1 h.2 valueOf?_one

theorem inUnit_clampUnit {x : Float} (h : x.isNaN = false) : InUnit (clampUnit x) := by
  unfold clampUnit
  by_cases hneg : x < 0.0
  · rw [if_pos hneg]
    exact inUnit_zero
  · rw [if_neg hneg]
    dsimp only
    by_cases hbig : x > 1.0
    · rw [if_pos hbig]
      exact inUnit_one
    · rw [if_neg hbig]
      exact ⟨float_le_of_not_lt h rfl hneg, float_le_of_not_lt rfl h hbig⟩

/-- What is no number stays so. -/
theorem isNaN_clampUnit {x : Float} (h : x.isNaN = true) : (clampUnit x).isNaN = true := by
  have hneg : ¬ x < 0.0 := fun hlt => by
    rw [(isNaN_of_le (float_le_of_lt hlt)).1] at h
    cases h
  have hbig : ¬ x > 1.0 := fun hlt => by
    rw [(isNaN_of_le (float_le_of_lt hlt)).2] at h
    cases h
  unfold clampUnit
  rw [if_neg hneg]
  dsimp only
  rw [if_neg hbig]
  exact h

/-! ### Sums of squares -/

theorem isDouble_mul_two_pow {n k : Nat} (hn : n ≤ 2 ^ 53) (hk : k ≤ 900) : IsDouble (n * 2 ^ k) := by
  rw [← zpow_natCast]
  exact isDouble_mul_two_zpow hn (by omega) (by omega)

theorem isDouble_two_pow {k : Nat} (hk : k ≤ 900) : IsDouble (2 ^ k) := by
  have := @isDouble_mul_two_pow 1 k (by decide) hk
  rwa [Nat.cast_one, one_mul] at this

/-- The squares of counts, added up from a start. -/
def squares (start : Float) (counts : List UInt32) : Float :=
  counts.foldl (fun s n => s + n.toFloat * n.toFloat) start

theorem valueOf?_toFloat (n : UInt32) : valueOf? n.toFloat = some (n.toNat : ℚ) := by
  rw [toFloat_eq_lengthToFloat]
  exact valueOf?_lengthToFloat (n.toNat_lt.le.trans (by decide))

/-- The square of a count, rounded: at least 1 if the count is, and below 2^64. -/
private theorem exists_valueOf?_square (n : UInt32) :
    ∃ q, valueOf? (n.toFloat * n.toFloat) = some q ∧ 0 ≤ q ∧ q < 2 ^ 64 ∧ (1 ≤ n.toNat → 1 ≤ q) := by
  have hn : n.toNat ≤ 2 ^ 32 - 1 := Nat.le_pred_of_lt n.toNat_lt
  have hlimit : IsDouble ((2 ^ 32 - 1 : Nat) * 2 ^ 32) := isDouble_mul_two_pow (by decide) (by decide)
  have hsquare : (n.toNat : ℚ) * n.toNat ≤ (2 ^ 32 - 1 : Nat) * 2 ^ 32 := by
    exact_mod_cast Nat.mul_le_mul hn (hn.trans (Nat.sub_le _ _))
  obtain ⟨q, hq, hsides⟩ := exists_valueOf?_mul (valueOf?_toFloat n) (valueOf?_toFloat n) (by positivity) (by positivity)
    hlimit hsquare
  have hbelow : ((2 ^ 32 - 1 : Nat) * 2 ^ 32 : ℚ) < 2 ^ 64 := by norm_num
  refine ⟨q, hq, by exact_mod_cast hsides.nonneg, (hsides.le_of_le hlimit (by positivity) hsquare).trans_lt hbelow,
    fun hone => ?_⟩
  have hone_square : (1 : ℚ) ≤ n.toNat * n.toNat := by exact_mod_cast Nat.mul_le_mul hone hone
  exact hsides.le_of_ge ⟨_, valueOf?_one⟩ hone_square

/-- The squares add up to a finite number, however many they are.  It is not below the start, and at least 1 if something
has been counted. -/
theorem squares_bounds (counts : List UInt32) {start : Float} {a : ℚ} (hstart : valueOf? start = some a) (ha : 0 ≤ a)
    (hle : a ≤ 2 ^ 117) :
    ∃ v, valueOf? (squares start counts) = some v ∧ a ≤ v ∧ v ≤ 2 ^ 117 ∧ ((∃ n ∈ counts, n ≠ 0) → 1 ≤ v) := by
  -- at 2^117 a square is less than half a unit, and the sum does not grow any more
  induction counts generalizing start a with
  | nil => exact ⟨a, hstart, le_rfl, hle, by simp⟩
  | cons n counts ih =>
    obtain ⟨q, hq, hnonneg, hbound, hone⟩ := exists_valueOf?_square n
    have hsum : a + q ≤ 2 ^ 118 := by linarith
    obtain ⟨w, hw, hsides, hw_le⟩ := exists_valueOf?_add_small (k := 65) hstart hq ha hnonneg
      (isDouble_two_pow (by decide)) hsum hle (by linarith)
    have ha_le : a ≤ w := hsides.le_of_ge ⟨_, hstart⟩ (le_add_of_nonneg_right hnonneg)
    have hq_le : q ≤ w := hsides.le_of_ge ⟨_, hq⟩ (le_add_of_nonneg_left ha)
    obtain ⟨v, hv, hle_v, hv_le, hone_v⟩ := ih hw (ha.trans ha_le) hw_le
    refine ⟨v, hv, ha_le.trans hle_v, hv_le, ?_⟩
    rintro ⟨m, hm, hne⟩
    rcases List.mem_cons.1 hm with rfl | hm
    · have hpos : 1 ≤ m.toNat := Nat.pos_of_ne_zero fun h => hne (UInt32.toNat_inj.1 h)
      exact (hone hpos).trans (hq_le.trans hle_v)
    · exact hone_v ⟨m, hm, hne⟩

/-- A double that is at least 1 and whose square is far from infinite. -/
def IsNorm (x : Float) : Prop :=
  ∃ v, valueOf? x = some v ∧ 1 ≤ v ∧ v ≤ 2 ^ 117

theorem IsNorm.one_le {x : Float} (h : IsNorm x) : 1.0 ≤ x := by
  obtain ⟨v, hv, hone, _⟩ := h
  exact (float_le_iff valueOf?_one hv).2 hone

theorem isNorm_squares {start : Float} (hstart : valueOf? start = some 0) {counts : List UInt32}
    (h : ∃ n ∈ counts, n ≠ 0) : IsNorm (squares start counts) := by
  obtain ⟨v, hv, _, hle, hone⟩ := squares_bounds counts hstart le_rfl (by positivity)
  exact ⟨v, hv, hone h, hle⟩

/-! ### Cosines -/

namespace CosineSums

/-- Neither side is empty, so that a quotient is taken. -/
def Divides (s : CosineSums) : Prop :=
  s.isZeroA = false ∧ s.isZeroB = false

/-- If a quotient is taken, then of sums that are not zero. -/
def NormsAtLeastOne (s : CosineSums) : Prop :=
  s.Divides → 1.0 ≤ s.normA ∧ 1.0 ≤ s.normB

/-- The products are not negative, and the squares of a side that is not empty are a norm. -/
structure Sound (s : CosineSums) : Prop where
  dot : 0.0 ≤ s.dot
  normA : s.isZeroA = false → IsNorm s.normA
  normB : s.isZeroB = false → IsNorm s.normB

theorem Sound.normsAtLeastOne {s : CosineSums} (h : s.Sound) : s.NormsAtLeastOne :=
  fun hdivides => ⟨(h.normA hdivides.1).one_le, (h.normB hdivides.2).one_le⟩

/-- The product of two norms does not overflow. -/
theorem mul_le_two_pow {a b : ℚ} (hb : 0 ≤ b) (hle_a : a ≤ 2 ^ 117) (hle_b : b ≤ 2 ^ 117) : a * b ≤ 2 ^ 234 :=
  calc a * b
    _ ≤ 2 ^ 117 * 2 ^ 117 := by gcongr
    _ = 2 ^ 234 := (pow_add 2 117 117).symm

/-- What is divided by is at least 1. -/
theorem exists_valueOf?_root {x y : Float} (hx : IsNorm x) (hy : IsNorm y) :
    ∃ r, valueOf? (x * y).sqrt = some r ∧ 1 ≤ r := by
  obtain ⟨a, ha, hone_a, hle_a⟩ := hx
  obtain ⟨b, hb, hone_b, hle_b⟩ := hy
  have hle := mul_le_two_pow (by linarith) hle_a hle_b
  obtain ⟨p, hp, hsides⟩ := exists_valueOf?_mul ha hb (by linarith) (by linarith) (isDouble_two_pow (by decide)) hle
  have hone_p : 1 ≤ p := hsides.le_of_ge ⟨_, valueOf?_one⟩ (one_le_mul_of_one_le_of_one_le hone_a hone_b)
  obtain ⟨r, hr, hroot⟩ := exists_valueOf?_sqrt hp (by linarith)
  have hone_root : (1 : ℝ) ≤ √p := Real.one_le_sqrt.2 (by exact_mod_cast hone_p)
  exact ⟨r, hr, by exact_mod_cast hroot.ge ⟨_, valueOf?_one⟩ (by exact_mod_cast hone_root)⟩

theorem Sound.inUnit_cosine {s : CosineSums} (h : s.Sound) : InUnit s.cosine := by
  unfold cosine cosineOfSums
  cases hA : s.isZeroA <;> cases hB : s.isZeroB
  · obtain ⟨r, hr, hone⟩ := exists_valueOf?_root (h.normA hA) (h.normB hB)
    exact inUnit_clampUnit (isNaN_of_zero_le (zero_le_div h.dot hr (by linarith)))
  · exact inUnit_zero
  · exact inUnit_zero
  · exact inUnit_one

end CosineSums

theorem zero_le_toFloat_mul (m n : UInt32) : 0.0 ≤ m.toFloat * n.toFloat :=
  zero_le_mul (valueOf?_toFloat m) (valueOf?_toFloat n) (by positivity) (by positivity)

namespace Tally

private theorem normA_sums {u v : Tally} (h : u.dimension = v.dimension) : (u.sums v).normA = squares 0.0 u.counts := by
  have hleft : (u.counts.zip v.counts).map Prod.fst = u.counts := List.map_fst_zip h.le
  conv => rhs; rw [← hleft]
  rw [squares, List.foldl_map]
  exact List.foldl_map

private theorem normB_sums {u v : Tally} (h : u.dimension = v.dimension) : (u.sums v).normB = squares 0.0 v.counts := by
  have hright : (u.counts.zip v.counts).map Prod.snd = v.counts := List.map_snd_zip h.ge
  conv => rhs; rw [← hright]
  rw [squares, List.foldl_map]
  exact List.foldl_map

private theorem exists_ne_zero {v : Tally} (h : v.isZero = false) : ∃ n ∈ v.counts, n ≠ 0 := by
  simpa [isZero] using h

theorem sound_sums {u v : Tally} (h : u.dimension = v.dimension) : (u.sums v).Sound where
  dot := by
    rw [sums, slots, List.foldl_map]
    refine List.foldlRecOn _ _ inUnit_zero.1 fun s hs pair _ => ?_
    exact zero_le_add hs (zero_le_toFloat_mul _ _)
  normA hne := by
    rw [normA_sums h]
    exact isNorm_squares rfl (exists_ne_zero hne)
  normB hne := by
    rw [normB_sums h]
    exact isNorm_squares rfl (exists_ne_zero hne)

end Tally

namespace GramCounts

/-- Nothing has been counted. -/
def IsZero (a : GramCounts) : Prop :=
  ∀ entry ∈ a, entry.2 = 0

/-- There are entries, but nothing has been counted in them. -/
def IsHollow (a : GramCounts) : Prop :=
  a ≠ [] ∧ a.IsZero

theorem squaredNorm_eq_squares (a : GramCounts) (start : Float) : a.squaredNorm start = squares start (a.map Prod.snd) := by
  rw [squares, List.foldl_map, squaredNorm]

theorem isNorm_squaredNorm {a : GramCounts} (h : ¬ a.IsZero) {start : Float} (hstart : valueOf? start = some 0) :
    IsNorm (a.squaredNorm start) := by
  unfold IsZero at h
  push Not at h
  obtain ⟨entry, hentry, hne⟩ := h
  rw [squaredNorm_eq_squares]
  exact isNorm_squares hstart ⟨entry.2, List.mem_map_of_mem hentry, hne⟩

theorem zero_le_dot (a b : GramCounts) : 0.0 ≤ a.dot b := by
  rw [dot_eq, dotBy]
  refine List.foldlRecOn _ _ inUnit_zero.1 fun s hs entry _ => ?_
  dsimp only
  split
  · exact zero_le_add hs (zero_le_toFloat_mul _ _)
  · exact hs

theorem not_isZero_of_not_isHollow {a : GramCounts} (h : ¬ a.IsHollow) (hne : a.isEmpty = false) : ¬ a.IsZero :=
  fun hzero => h ⟨List.isEmpty_eq_false_iff.1 hne, hzero⟩

private theorem sound_sumsInto {small large : GramCounts} (hs : ¬ small.IsHollow) (hl : ¬ large.IsHollow) :
    (small.sumsInto large).Sound where
  dot := zero_le_dot small large
  normA hne := isNorm_squaredNorm (not_isZero_of_not_isHollow hs hne) rfl
  normB hne := isNorm_squaredNorm (not_isZero_of_not_isHollow hl hne) rfl

theorem sound_sums {a b : GramCounts} (ha : ¬ a.IsHollow) (hb : ¬ b.IsHollow) : (a.sums b).Sound := by
  unfold sums
  split
  · exact sound_sumsInto ha hb
  · exact sound_sumsInto hb ha

/-- Grams as they are counted: each is listed once and has been counted at least once. -/
structure IsProfile (a : GramCounts) : Prop where
  distinct : a.Pairwise (·.1 ≠ ·.1)
  ne_zero : ∀ entry ∈ a, entry.2 ≠ 0

theorem IsProfile.perm {a a' : GramCounts} (h : a.IsProfile) (hperm : a'.Perm a) : a'.IsProfile where
  distinct := hperm.symm.pairwise h.distinct Ne.symm
  ne_zero entry hentry := h.ne_zero entry (hperm.mem_iff.1 hentry)

theorem IsProfile.not_isHollow {a : GramCounts} (h : a.IsProfile) : ¬ a.IsHollow := by
  rintro ⟨hne, hzero⟩
  obtain ⟨entry, rest, rfl⟩ := List.exists_cons_of_ne_nil hne
  exact h.ne_zero entry List.mem_cons_self (hzero entry List.mem_cons_self)

end GramCounts

/-- In a sequence of less than 2^32 tokens no count overflows to zero. -/
theorem isProfile_gramCounts (width : Nat) {sequence : List Token} (h : sequence.length < 2 ^ 32) :
    (gramCounts width sequence).IsProfile where
  distinct := GramCounts.distinct_toList _
  ne_zero entry hentry := by
    obtain ⟨g, hg, rfl⟩ := List.mem_map.1 ((perm_gramCounts width sequence).mem_iff.1 hentry)
    have hpos := List.count_pos_iff.2 (List.mem_dedup.1 hg)
    intro hzero
    have hnat := congrArg UInt32.toNat hzero
    rw [toNat_ofNat_count_gram width h] at hnat
    exact hpos.ne' hnat

/-! ### Sums of scores -/

theorem zero_le_weight_mul {w x : Float} (hw : ¬ Unusable w) (hx : InUnit x) : 0.0 ≤ w * x := by
  obtain ⟨a, ha, hnonneg_a⟩ := exists_valueOf?_of_not_unusable hw
  obtain ⟨b, hb, hnonneg_b, _⟩ := hx.exists_valueOf?
  exact zero_le_mul ha hb hnonneg_a hnonneg_b

/-- The fused score is a number even if the weighted sum is infinite. -/
theorem inUnit_fuse {weights : Weights} {scores : Scores} (hweights : ∀ aspect, ¬ Unusable (weights.get aspect))
    (hscores : ∀ aspect, InUnit (scores.get aspect)) : InUnit (clampUnit (weights.fuse scores)) := by
  have hterm := fun aspect => zero_le_weight_mul (hweights aspect) (hscores aspect)
  have hsum : 0.0 ≤ weights.fuse scores :=
    zero_le_add (zero_le_add (zero_le_add (zero_le_add (hterm .keyword) (hterm .identifier)) (hterm .operator))
      (hterm .sequence)) (hterm .length)
  exact inUnit_clampUnit (isNaN_of_zero_le hsum)

/-- A combined score and the cosines that it is made of, one for each scale, are between 0 and 1. -/
structure MultiScale.InRange (m : MultiScale) (scales : List Scale) : Prop where
  combined : InUnit m.combined
  scores : ∀ score ∈ m.scales, InUnit score.score
  widths : m.scales.map ScaleScore.width = scales.map Scale.width

theorem multiScaleBy_inRange {orders : ScaleOrders} {a b : List Token} (ha : a.length < 2 ^ 32) (hb : b.length < 2 ^ 32)
    {scales : List Scale} (hscales : ∀ scale ∈ scales, scale.width ≠ 0 ∧ ¬ Unusable scale.weight) {m : MultiScale}
    (h : multiScaleBy orders a b scales = .ok m) : m.InRange scales := by
  rw [multiScaleBy_eq orders a b fun scale hscale => (hscales scale hscale).1, Except.ok.injEq] at h
  subst h
  have hcosine : ∀ width, InUnit (orders.cosine a b width) := fun width => by
    have hprofile_a := (isProfile_gramCounts width ha).perm ((orders.left width).perm _)
    have hprofile_b := (isProfile_gramCounts width hb).perm ((orders.right width).perm _)
    rw [ScaleOrders.cosine, GramCounts.cosine_eq_sums]
    exact (GramCounts.sound_sums hprofile_a.not_isHollow hprofile_b.not_isHollow).inUnit_cosine
  refine ⟨inUnit_clampUnit (isNaN_of_zero_le ?_), ?_, ?_⟩
  · refine List.foldlRecOn _ _ inUnit_zero.1 fun s hs pair hpair => ?_
    obtain ⟨hscale, hscore⟩ := List.of_mem_zip hpair
    obtain ⟨scale, _, hcos⟩ := List.mem_map.1 hscore
    exact zero_le_add hs (zero_le_weight_mul (hscales _ hscale).2 (hcos ▸ hcosine scale.width))
  · intro score hscore
    obtain ⟨scale, _, rfl⟩ := List.mem_map.1 hscore
    exact hcosine scale.width
  · rw [List.map_map]
    rfl

theorem usable_identifierScales : ∀ scale ∈ identifierScales, scale.width ≠ 0 ∧ ¬ Unusable scale.weight := by
  simp only [← isUsable_eq_false_iff]
  decide

theorem usable_sequenceScales : ∀ scale ∈ sequenceScales, scale.width ≠ 0 ∧ ¬ Unusable scale.weight := by
  simp only [← isUsable_eq_false_iff]
  decide

theorem inUnit_lengthRatio {m n : Nat} (hm : m < 2 ^ 32) (hn : n < 2 ^ 32) : InUnit (lengthRatio m n) := by
  unfold lengthRatio
  split_ifs with hboth hone
  · exact inUnit_one
  · exact inUnit_zero
  · have hmin : min m n ≤ max m n := min_le_max
    have hmax : 0 < max m n := by omega
    have hpos : (0 : ℚ) < (max m n : Nat) := by exact_mod_cast hmax
    have hratio : ((min m n : Nat) : ℚ) / (max m n : Nat) ≤ 1 := (div_le_one hpos).2 (by exact_mod_cast hmin)
    obtain ⟨v, hv, hsides⟩ := exists_valueOf?_div (valueOf?_lengthToFloat (by omega)) (valueOf?_lengthToFloat (by omega))
      (Nat.cast_nonneg _) hpos ⟨_, valueOf?_one⟩ hratio
    have hnonneg : 0 ≤ v := by exact_mod_cast hsides.nonneg
    have hle : v ≤ 1 := hsides.le_of_le ⟨_, valueOf?_one⟩ zero_le_one hratio
    exact ⟨(zero_le_of_valueOf? hv).2 hnonneg, (float_le_iff hv valueOf?_one).2 hle⟩

/-! ### Comparisons -/

/-- All scores of a comparison are between 0 and 1. -/
structure Comparison.InRange (c : Comparison) : Prop where
  scores : ∀ aspect, InUnit (c.scores.get aspect)
  identifier : MultiScale.InRange ⟨c.scores.identifier, c.identifierScales⟩ Likeness.identifierScales
  sequence : MultiScale.InRange ⟨c.scores.sequence, c.sequenceScales⟩ Likeness.sequenceScales
  total : InUnit c.total

/-- No cosine of two analyses divides by zero: the norms of both sides are at least 1 where it comes to a quotient, in
whichever order the grams are listed, and then the cosine is between 0 and 1. -/
structure Analysis.NormsAtLeastOne (u v : Analysis) : Prop where
  keywords : tallyCosine u.keywords v.keywords = .ok (u.keywords.sums v.keywords).cosine ∧
    (u.keywords.sums v.keywords).NormsAtLeastOne
  operators : tallyCosine u.operators v.operators = .ok (u.operators.sums v.operators).cosine ∧
    (u.operators.sums v.operators).NormsAtLeastOne
  identifiers : ∀ (width : Nat) (x y : GramCounts), x.Perm (gramCounts width u.identifiers) →
    y.Perm (gramCounts width v.identifiers) →
      x.cosine y = (x.sums y).cosine ∧ (x.sums y).NormsAtLeastOne ∧ InUnit (x.cosine y)
  normalized : ∀ (width : Nat) (x y : GramCounts), x.Perm (gramCounts width u.normalized) →
    y.Perm (gramCounts width v.normalized) →
      x.cosine y = (x.sums y).cosine ∧ (x.sums y).NormsAtLeastOne ∧ InUnit (x.cosine y)

/-- Analyses of sources whose counts do not overflow. -/
structure Analysis.IsShort (u : Analysis) : Prop where
  keywords : u.keywords.dimension = Likeness.keywords.length
  operators : u.operators.dimension = Likeness.operators.length
  identifiers : u.identifiers.length < 2 ^ 32
  normalized : u.normalized.length < 2 ^ 32
  tokenCount : u.tokenCount < 2 ^ 32

theorem Analysis.isShort_ofSource {a : List Char} (h : (ofSource a).tokenCount < 2 ^ 32) : (ofSource a).IsShort where
  keywords := by simp [ofSource, ofTokens, keywordTally]
  operators := by simp [ofSource, ofTokens, operatorTally]
  identifiers := (length_identifierSequence_le _).trans_lt h
  normalized := (length_normalForm_le _).trans_lt h
  tokenCount := h

section

variable {u v : Analysis}

theorem Tally.sound_sums_keywords (hu : u.IsShort) (hv : v.IsShort) : (u.keywords.sums v.keywords).Sound :=
  sound_sums (hu.keywords.trans hv.keywords.symm)

theorem Tally.sound_sums_operators (hu : u.IsShort) (hv : v.IsShort) : (u.operators.sums v.operators).Sound :=
  sound_sums (hu.operators.trans hv.operators.symm)

theorem tallyCosine_eq_sums {u v : Tally} (h : u.dimension = v.dimension) :
    tallyCosine u v = .ok (u.sums v).cosine := by
  rw [tallyCosine, Tally.cosine?_eq_sums h]

theorem Analysis.IsShort.normsAtLeastOne (hu : u.IsShort) (hv : v.IsShort) : u.NormsAtLeastOne v := by
  have hgrams : ∀ {s t : List Token}, s.length < 2 ^ 32 → t.length < 2 ^ 32 → ∀ (width : Nat) (x y : GramCounts),
      x.Perm (gramCounts width s) → y.Perm (gramCounts width t) →
        x.cosine y = (x.sums y).cosine ∧ (x.sums y).NormsAtLeastOne ∧ InUnit (x.cosine y) := by
    intro s t hs ht width x y hx hy
    have hsound := GramCounts.sound_sums ((isProfile_gramCounts width hs).perm hx).not_isHollow
      ((isProfile_gramCounts width ht).perm hy).not_isHollow
    exact ⟨x.cosine_eq_sums y, hsound.normsAtLeastOne, x.cosine_eq_sums y ▸ hsound.inUnit_cosine⟩
  exact ⟨⟨tallyCosine_eq_sums (hu.keywords.trans hv.keywords.symm), (Tally.sound_sums_keywords hu hv).normsAtLeastOne⟩,
    ⟨tallyCosine_eq_sums (hu.operators.trans hv.operators.symm), (Tally.sound_sums_operators hu hv).normsAtLeastOne⟩,
    hgrams hu.identifiers hv.identifiers, hgrams hu.normalized hv.normalized⟩

theorem Comparison.IsOf.inRange (hu : u.IsShort) (hv : v.IsShort) {orders : GramOrders} {weights : Weights}
    {c : Comparison} (h : c.IsOf orders weights u v) : c.InRange := by
  have hidentifier := multiScaleBy_inRange hu.identifiers hv.identifiers usable_identifierScales h.identifier
  have hsequence := multiScaleBy_inRange hu.normalized hv.normalized usable_sequenceScales h.sequence
  have hscores : ∀ aspect, InUnit (c.scores.get aspect) := by
    intro aspect
    cases aspect with
    | keyword =>
      have hkeyword := h.keyword
      rw [tallyCosine_eq_sums (hu.keywords.trans hv.keywords.symm), Except.ok.injEq] at hkeyword
      change InUnit c.scores.keyword
      rw [← hkeyword]
      exact (Tally.sound_sums_keywords hu hv).inUnit_cosine
    | identifier => exact hidentifier.combined
    | operator =>
      have hoperator := h.operator
      rw [tallyCosine_eq_sums (hu.operators.trans hv.operators.symm), Except.ok.injEq] at hoperator
      change InUnit c.scores.operator
      rw [← hoperator]
      exact (Tally.sound_sums_operators hu hv).inUnit_cosine
    | sequence => exact hsequence.combined
    | length =>
      change InUnit c.scores.length
      rw [h.length]
      exact inUnit_lengthRatio hu.tokenCount hv.tokenCount
  exact ⟨hscores, hidentifier, hsequence, h.total ▸ inUnit_fuse h.not_unusable hscores⟩

end

/-- Sources of less than 2^32 tokens.  Their comparison fails exactly if a weight cannot be used, and names the first such
weight.  No quotient on the way has a norm below 1, and all that a comparison finds is between 0 and 1, in whichever orders
it visits grams. -/
theorem comparison_fails_or_inRange (orders : GramOrders) (weights : Weights) {a b : List Char}
    (ha : (Analysis.ofSource a).tokenCount < 2 ^ 32) (hb : (Analysis.ofSource b).tokenCount < 2 ^ 32) :
    let u := Analysis.ofSource a
    let v := Analysis.ofSource b
    (∀ failure, compareAnalysesBy orders weights u v = .error failure ↔
        ∃ aspect, weights.FirstFault aspect ∧ failure = .weights (.unusable aspect (weights.get aspect))) ∧
      ((∃ failure, compareAnalysesBy orders weights u v = .error failure) ↔ ∃ aspect, Unusable (weights.get aspect)) ∧
      u.NormsAtLeastOne v ∧
      ∀ c, compareAnalysesBy orders weights u v = .ok c → c.InRange := by
  intro u v
  have hu := Analysis.isShort_ofSource ha
  have hv := Analysis.isShort_ofSource hb
  have herror : ∀ failure, compareAnalysesBy orders weights u v = .error failure ↔
      ∃ aspect, weights.FirstFault aspect ∧ failure = .weights (.unusable aspect (weights.get aspect)) :=
    fun failure => compareAnalysesBy_eq_error_iff (Analysis.sameSlots_ofSource a b)
  refine ⟨herror, ⟨?_, ?_⟩, hu.normsAtLeastOne hv, fun c hc => (compareAnalysesBy_eq_ok_iff.1 hc).inRange hu hv⟩
  · rintro ⟨failure, h⟩
    obtain ⟨aspect, hfirst, _⟩ := (herror failure).1 h
    exact ⟨aspect, hfirst.unusable⟩
  · rintro ⟨aspect, hbad⟩
    obtain ⟨fault, hfault⟩ : ∃ fault, weights.fault? = some fault := by
      by_contra hne
      exact Weights.fault?_eq_none_iff.1 (Option.eq_none_iff_forall_ne_some.2 fun fault h => hne ⟨fault, h⟩) aspect hbad
    exact ⟨_, compareAnalysesBy_of_fault orders hfault u v⟩

/-- Weights whose sum is infinite, and weights that cannot be used from the second one on. -/
theorem comparison_under_extreme_weights :
    let a := Analysis.ofSource "x = y + 1;".toList
    let b := Analysis.ofSource "int a, b; a = b;".toList
    let huge : Weights := .ofFn fun _ => 1e308
    let bad : Weights := ⟨1.0, -1.0, 0.0 / 0.0, 1.0, 1.0 / 0.0⟩
    a.tokenCount = 5 ∧ b.tokenCount = 9 ∧
      (∃ c, compareAnalyses huge a b = .ok c ∧ (huge.fuse c.scores).isInf = true ∧ c.InRange) ∧
      compareAnalyses bad a b = .error (.weights (.unusable .identifier (-1.0))) := by
  intro a b huge bad
  have ha : a.tokenCount = 5 := by decide +kernel
  have hb : b.tokenCount = 9 := by decide +kernel
  have hhuge := comparison_fails_or_inRange .asListed huge (ha.trans_lt (by decide)) (hb.trans_lt (by decide))
  have hbad := comparison_fails_or_inRange .asListed bad (ha.trans_lt (by decide)) (hb.trans_lt (by decide))
  have hsum : (compareAnalyses huge a b).toOption.any (fun c => (huge.fuse c.scores).isInf) = true := by decide +kernel
  refine ⟨ha, hb, ?_, (hbad.1 _).2 ⟨.identifier, ⟨?_, ?_⟩, rfl⟩⟩
  · cases hab : compareAnalyses huge a b with
    | error failure =>
      rw [hab] at hsum
      contradiction
    | ok c =>
      rw [hab] at hsum
      exact ⟨c, rfl, hsum, hhuge.2.2.2 c hab⟩
  · exact isUsable_eq_false_iff.1 (by decide)
  · simp only [← isUsable_eq_false_iff]
    intro aspect
    cases aspect <;> decide

end Likeness
