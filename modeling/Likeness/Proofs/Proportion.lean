import Likeness.Proofs.WholeSums
import Mathlib.Analysis.InnerProductSpace.PiL2

/-!
# What a cosine tells

Taken exactly, the cosine of two sides that are not empty is 1 for proportional counts only, and 0 for counts that have
nothing in common.

* (scores) `WholeSums.score` is the exact cosine, and `WholeSums.Tells` says what it and its sums tell.
* (tallies) a tally is a vector of a Euclidean space, in which its sums are inner products (`Tally.inner_vector`); so that the
  inequality of Cauchy and Schwarz and the case of equality hold of the sums (`Tally.tells_wholeSums`).
* (grams) the same is true of grams, which are tallies along an enumeration of all their texts (`GramCounts.tells_wholeSums`).
-/

namespace Likeness

open scoped RealInnerProductSpace

/-! ### Scores -/

namespace WholeSums

/-- The exact cosine, with nothing rounded and nothing clamped. -/
noncomputable def score (s : WholeSums) : ℝ :=
  s.dot / √(s.normA * s.normB)

/-- What the sums of a cosine tell about two sides: whether they are proportional and whether they have nothing in common. -/
structure Tells (s : WholeSums) (proportional disjoint : Prop) : Prop where
  sq_dot_le : s.dot ^ 2 ≤ s.normA * s.normB
  sq_dot_eq_iff : s.dot ^ 2 = s.normA * s.normB ↔ proportional
  dot_eq_zero_iff : s.dot = 0 ↔ disjoint
  score_eq_one_iff : s.score = 1 ↔ proportional
  score_eq_zero_iff : s.score = 0 ↔ disjoint

/-- Norms that are not zero, so that there is an exact cosine. -/
structure HasNorms (s : WholeSums) : Prop where
  normA : 0 < s.normA
  normB : 0 < s.normB

variable {s : WholeSums}

theorem HasNorms.sqrt_pos (h : s.HasNorms) : 0 < √(s.normA * s.normB : ℝ) :=
  Real.sqrt_pos.2 (mul_pos (Nat.cast_pos.2 h.normA) (Nat.cast_pos.2 h.normB))

theorem HasNorms.score_eq_one_iff (h : s.HasNorms) : s.score = 1 ↔ s.dot ^ 2 = s.normA * s.normB := by
  rw [score, div_eq_one_iff_eq h.sqrt_pos.ne', eq_comm, Real.sqrt_eq_iff_eq_sq (by positivity) (by positivity), eq_comm]
  exact_mod_cast Iff.rfl

theorem HasNorms.score_eq_zero_iff (h : s.HasNorms) : s.score = 0 ↔ s.dot = 0 := by
  rw [score, div_eq_zero_iff, or_iff_left h.sqrt_pos.ne', Nat.cast_eq_zero]

theorem Tells.exchange {proportional disjoint : Prop} (h : s.Tells proportional disjoint) :
    s.exchange.Tells proportional disjoint := by
  have hscore : s.exchange.score = s.score := by
    rw [score, score, WholeSums.exchange, mul_comm]
  obtain ⟨hle, heq, hzero, hone, hnone⟩ := h
  rw [← hscore] at hone hnone
  rw [mul_comm] at hle heq
  exact ⟨hle, heq, hzero, hone, hnone⟩

end WholeSums

/-! ### Tallies -/

namespace Tally

/-- Counts in a constant ratio. -/
def Proportional (u v : Tally) : Prop :=
  ∃ ratio : ℝ, 0 < ratio ∧ ∀ slot, (v.count slot : ℝ) = ratio * u.count slot

/-- No slot counts anything on both sides. -/
def Disjoint (u v : Tally) : Prop :=
  ∀ slot, u.count slot = 0 ∨ v.count slot = 0

/-- The counts in the first slots as a vector. -/
noncomputable def vector (n : Nat) (v : Tally) : EuclideanSpace ℝ (Fin n) :=
  WithLp.toLp 2 fun slot => (v.count slot : ℝ)

variable {u v : Tally}

theorem sum_slots (h : u.dimension = v.dimension) (f : Nat → Nat → Nat) :
    ((u.counts.zip v.counts).map fun slot => f slot.1.toNat slot.2.toNat).sum =
      ∑ slot : Fin u.dimension, f (u.count slot) (v.count slot) := by
  unfold dimension at h
  rw [← List.sum_ofFn]
  congr 1
  refine List.ext_getElem (by simp [dimension, h]) fun i hi hi' => ?_
  have hu : i < u.counts.length := by simpa [dimension] using hi'
  have hv : i < v.counts.length := h ▸ hu
  simp [count, get?, hu, hv]

theorem inner_vector (n : Nat) (u v : Tally) :
    ⟪u.vector n, v.vector n⟫ = (∑ slot : Fin n, u.count slot * v.count slot : Nat) := by
  simp [vector, PiLp.inner_apply, mul_comm]

theorem inner_vector_eq (h : u.dimension = v.dimension) :
    ⟪u.vector u.dimension, v.vector u.dimension⟫ = (u.wholeSums v).dot ∧
      ⟪u.vector u.dimension, u.vector u.dimension⟫ = (u.wholeSums v).normA ∧
      ⟪v.vector u.dimension, v.vector u.dimension⟫ = (u.wholeSums v).normB := by
  simp only [inner_vector, wholeSums, sum_slots h fun m n => m * n, sum_slots h fun m _ => m * m,
    sum_slots h fun _ n => n * n, and_self]

/-- Slots that neither tally has count nothing, so that it is enough to look at those that they have. -/
private theorem forall_slots_iff (h : u.dimension = v.dimension) (r : Nat → Nat → Prop) (hempty : r 0 0) :
    (∀ slot : Fin u.dimension, r (u.count slot) (v.count slot)) ↔ ∀ slot, r (u.count slot) (v.count slot) := by
  refine ⟨fun hslots slot => ?_, fun hslots slot => hslots slot⟩
  rcases Nat.lt_or_ge slot u.dimension with hlt | hge
  · exact hslots ⟨slot, hlt⟩
  · rwa [count_of_le hge, count_of_le (h ▸ hge)]

theorem vector_eq_smul_iff (h : u.dimension = v.dimension) (ratio : ℝ) :
    v.vector u.dimension = ratio • u.vector u.dimension ↔ ∀ slot, (v.count slot : ℝ) = ratio * u.count slot := by
  rw [← forall_slots_iff h (fun m n => (n : ℝ) = ratio * m) (by simp), PiLp.ext_iff]
  rfl

theorem vector_eq_zero_iff : v.vector v.dimension = 0 ↔ v.isZero = true := by
  rw [isZero_iff, ← forall_slots_iff rfl (fun m _ => m = 0) rfl, PiLp.ext_iff]
  exact forall_congr' fun slot => Nat.cast_eq_zero

theorem vector_ne_zero (h : v.isZero = false) : v.vector v.dimension ≠ 0 := by
  rw [Ne, vector_eq_zero_iff, h]
  exact Bool.false_ne_true

theorem score_eq (h : u.dimension = v.dimension) :
    (u.wholeSums v).score =
      ⟪u.vector u.dimension, v.vector u.dimension⟫ / (‖u.vector u.dimension‖ * ‖v.vector u.dimension‖) := by
  obtain ⟨hdot, hnormA, hnormB⟩ := inner_vector_eq h
  rw [norm_eq_sqrt_real_inner, norm_eq_sqrt_real_inner, hdot, hnormA, hnormB, ← Real.sqrt_mul (Nat.cast_nonneg _)]
  rfl

theorem hasNorms_wholeSums (h : u.dimension = v.dimension) (hu : u.isZero = false) (hv : v.isZero = false) :
    (u.wholeSums v).HasNorms := by
  obtain ⟨_, hnormA, hnormB⟩ := inner_vector_eq h
  have hpos_u := real_inner_self_pos.2 (vector_ne_zero hu)
  have hpos_v := real_inner_self_pos.2 (vector_ne_zero hv)
  rw [hnormA] at hpos_u
  rw [← h, hnormB] at hpos_v
  exact ⟨Nat.cast_pos.1 hpos_u, Nat.cast_pos.1 hpos_v⟩

theorem tells_wholeSums (h : u.dimension = v.dimension) (hu : u.isZero = false) (hv : v.isZero = false) :
    (u.wholeSums v).Tells (u.Proportional v) (u.Disjoint v) := by
  have hnorms := hasNorms_wholeSums h hu hv
  have hone : (u.wholeSums v).score = 1 ↔ u.Proportional v := by
    rw [score_eq h, real_inner_div_norm_mul_norm_eq_one_iff, and_iff_right (vector_ne_zero hu)]
    exact exists_congr fun ratio => and_congr_right fun _ => vector_eq_smul_iff h ratio
  have hzero : (u.wholeSums v).dot = 0 ↔ u.Disjoint v := by
    rw [Disjoint, ← forall_slots_iff h (fun m n => m = 0 ∨ n = 0) (.inl rfl), wholeSums, sum_slots h fun m n => m * n,
      Finset.sum_eq_zero_iff]
    simp only [Finset.mem_univ, true_imp_iff, Nat.mul_eq_zero]
  refine ⟨?_, hnorms.score_eq_one_iff.symm.trans hone, hzero, hone, hnorms.score_eq_zero_iff.trans hzero⟩
  obtain ⟨hdot, hnormA, hnormB⟩ := inner_vector_eq h
  have hle := real_inner_mul_inner_self_le (u.vector u.dimension) (v.vector u.dimension)
  rw [hdot, hnormA, hnormB, ← sq] at hle
  exact_mod_cast hle

end Tally

/-! ### Grams -/

namespace GramCounts

/-- The same grams on both sides, with counts in a constant ratio. -/
structure Proportional (a b : GramCounts) : Prop where
  same_grams : ∀ gram, (∃ n, a.count? gram = some n) ↔ ∃ n, b.count? gram = some n
  exists_ratio : ∃ ratio : ℝ, 0 < ratio ∧ ∀ gram, (b.occurrences gram : ℝ) = ratio * a.occurrences gram

/-- No gram has been counted on both sides. -/
def Disjoint (a b : GramCounts) : Prop :=
  ∀ gram, a.occurrences gram = 0 ∨ b.occurrences gram = 0

variable {a b : GramCounts} {keys : List (List Char)}

theorem count_along {slot : Nat} {key : List Char} (h : keys[slot]? = some key) (a : GramCounts) :
    (a.along keys).count slot = a.occurrences key := by
  rw [Tally.count, Tally.get?, along, List.getElem?_map, h, Option.map_some, Option.getD_some, occurrences]

theorem count_along_of_none {slot : Nat} (h : keys[slot]? = none) (a : GramCounts) : (a.along keys).count slot = 0 := by
  rw [Tally.count, Tally.get?, along, List.getElem?_map, h]
  rfl

/-- What is true of the slots of an enumeration is true of all grams, as those that are not listed count nothing. -/
private theorem forall_along_iff (hcover : ∀ entry ∈ a ++ b, entry.1 ∈ keys) (r : Nat → Nat → Prop) (hempty : r 0 0) :
    (∀ slot, r ((a.along keys).count slot) ((b.along keys).count slot)) ↔
      ∀ gram, r (a.occurrences gram) (b.occurrences gram) := by
  constructor
  · intro h gram
    by_cases hgram : gram ∈ keys
    · obtain ⟨slot, hslot⟩ := List.mem_iff_getElem?.1 hgram
      rw [← count_along hslot, ← count_along hslot]
      exact h slot
    · have hnone : ∀ c : GramCounts, (∀ entry ∈ c, entry ∈ a ++ b) → c.occurrences gram = 0 := by
        intro c hc
        refine occurrences_of_notMem fun hmem => hgram ?_
        obtain ⟨entry, hentry, rfl⟩ := List.mem_map.1 hmem
        exact hcover entry (hc entry hentry)
      rw [hnone a fun _ => List.mem_append_left b, hnone b fun _ => List.mem_append_right a]
      exact hempty
  · intro h slot
    cases hslot : keys[slot]? with
    | none =>
      rw [count_along_of_none hslot, count_along_of_none hslot]
      exact hempty
    | some gram =>
      rw [count_along hslot, count_along hslot]
      exact h gram

theorem IsProfile.occurrences_ne_zero_iff (h : a.IsProfile) {gram : List Char} :
    a.occurrences gram ≠ 0 ↔ ∃ n, a.count? gram = some n := by
  unfold occurrences
  cases hn : a.count? gram with
  | none => simp
  | some n =>
    have hne : n.toNat ≠ 0 := fun hzero => h.ne_zero _ (mem_of_lookup_eq_some hn) (UInt32.toNat_inj.1 hzero)
    simpa using hne

theorem proportional_iff (ha : a.IsProfile) (hb : b.IsProfile) :
    a.Proportional b ↔ ∃ ratio : ℝ, 0 < ratio ∧ ∀ gram, (b.occurrences gram : ℝ) = ratio * a.occurrences gram := by
  refine ⟨Proportional.exists_ratio, fun h => ⟨fun gram => ?_, h⟩⟩
  obtain ⟨ratio, hpos, hratio⟩ := h
  have hzero : (b.occurrences gram : ℝ) = 0 ↔ (a.occurrences gram : ℝ) = 0 := by
    rw [hratio, mul_eq_zero, or_iff_right hpos.ne']
  rw [Nat.cast_eq_zero, Nat.cast_eq_zero] at hzero
  rw [← ha.occurrences_ne_zero_iff, ← hb.occurrences_ne_zero_iff, Ne, Ne, hzero]

theorem tells_wholeSums (ha : a.IsProfile) (hb : b.IsProfile) (hne_a : a ≠ []) (hne_b : b ≠ []) :
    (a.wholeSums b).Tells (a.Proportional b) (a.Disjoint b) := by
  -- any enumeration will do, for instance that of all texts on both sides
  obtain ⟨keys, hkeys, hcover⟩ : ∃ keys : List (List Char), keys.Nodup ∧ ∀ entry ∈ a ++ b, entry.1 ∈ keys :=
    ⟨((a ++ b).map Prod.fst).dedup, List.nodup_dedup _, fun _ h => List.mem_dedup.2 (List.mem_map_of_mem h)⟩
  have hcover_a : ∀ entry ∈ a, entry.1 ∈ keys := fun _ h => hcover _ (List.mem_append_left b h)
  have hcover_b : ∀ entry ∈ b, entry.1 ∈ keys := fun _ h => hcover _ (List.mem_append_right a h)
  have htells : ((a.along keys).wholeSums (b.along keys)).Tells (a.Proportional b) (a.Disjoint b) := by
    have hproportional : (a.along keys).Proportional (b.along keys) ↔ a.Proportional b := by
      rw [proportional_iff ha hb]
      refine exists_congr fun ratio => and_congr_right fun _ => ?_
      exact forall_along_iff hcover (fun m n => (n : ℝ) = ratio * m) (by simp)
    have hdisjoint : (a.along keys).Disjoint (b.along keys) ↔ a.Disjoint b :=
      forall_along_iff hcover (fun m n => m = 0 ∨ n = 0) (.inl rfl)
    rw [← hproportional, ← hdisjoint]
    refine Tally.tells_wholeSums (by simp [along, Tally.dimension]) ?_ ?_
    · rw [isZero_along ha hcover_a, List.isEmpty_eq_false_iff]
      exact hne_a
    · rw [isZero_along hb hcover_b, List.isEmpty_eq_false_iff]
      exact hne_b
  rcases wholeSums_along ha hb hkeys hcover_a hcover_b with hsame | hexchanged
  · rwa [hsame]
  · rw [hexchanged]
    exact htells.exchange

end GramCounts

/-- The exact cosine of two sides that are not empty is at most 1.  It is 1 exactly if the counts are proportional, and 0
exactly if nothing is counted on both sides; for tallies slot by slot, for grams gram by gram.  The cosines that are computed
are made of the same sums, added up in doubles, as long as these are exact. -/
theorem cosine_tells :
    (∀ u v : Tally, u.dimension = v.dimension → u.isZero = false → v.isZero = false →
      (u.wholeSums v).Tells (u.Proportional v) (u.Disjoint v) ∧ u.cosine? v = some (u.sums v).cosine ∧
        ((u.wholeSums v).Exact → (u.sums v).Are (u.wholeSums v))) ∧
    ∀ a b : GramCounts, a.IsProfile → b.IsProfile → a ≠ [] → b ≠ [] →
      (a.wholeSums b).Tells (a.Proportional b) (a.Disjoint b) ∧ a.cosine b = (a.sums b).cosine ∧
        ((a.wholeSums b).Exact → (a.sums b).Are (a.wholeSums b)) :=
  ⟨fun _ _ h hu hv => ⟨Tally.tells_wholeSums h hu hv, Tally.cosine?_eq_sums h, Tally.are_wholeSums⟩,
    fun a b ha hb hne_a hne_b =>
      ⟨GramCounts.tells_wholeSums ha hb hne_a hne_b, a.cosine_eq_sums b, GramCounts.are_wholeSums⟩⟩

/-- Tallies in the ratio of 2, and grams of which none is on both sides. -/
theorem cosine_tells_of_small_counts :
    let u : Tally := ⟨[1, 0, 2]⟩
    let v : Tally := ⟨[2, 0, 4]⟩
    let a : GramCounts := [(['x'], 1), (['y'], 2)]
    let b : GramCounts := [(['z'], 3)]
    u.Proportional v ∧ (u.wholeSums v).score = 1 ∧ a.Disjoint b ∧ (a.wholeSums b).score = 0 := by
  intro u v a b
  have htallies := (cosine_tells.1 u v rfl rfl rfl).1
  have hgrams := (cosine_tells.2 a b ⟨by decide, by decide⟩ ⟨by decide, by decide⟩ (by decide) (by decide)).1
  have hproportional : u.Proportional v := htallies.sq_dot_eq_iff.1 (by decide)
  have hdisjoint : a.Disjoint b := hgrams.dot_eq_zero_iff.1 (by decide)
  exact ⟨hproportional, htallies.score_eq_one_iff.2 hproportional, hdisjoint, hgrams.score_eq_zero_iff.2 hdisjoint⟩

end Likeness
