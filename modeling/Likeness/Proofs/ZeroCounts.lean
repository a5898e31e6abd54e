import Likeness.Proofs.WholeSums

/-!
# Counts of zero

A list of grams may have entries for grams that have been counted zero times.  The cosine asks whether a side has entries,
not whether anything has been counted.

* (conventions) `FollowsConventions` is what is documented: two sides in which nothing has been counted match, one of them
  matches nothing, and there is no division by zero.
* (hollow sides) if a side has entries of zero only, its norm is zero and zero is divided by zero, unless the other side has
  no entries (`dividesByZero_sums`).
* (entries of zero) beside other entries, or if they are removed again, they change nothing (`cosine_eq_of_sameCounts`).
* `cosine_conventions` puts the parts together: hollow sides are the only ones for which the conventions fail.
-/

namespace Likeness

/-! ### Divisions by zero -/

namespace CosineSums

/-- A quotient is taken, and what is divided by is zero. -/
def DividesByZero (s : CosineSums) : Prop :=
  s.Divides ∧ valueOf? (s.normA * s.normB).sqrt = some 0

theorem Sound.not_dividesByZero {s : CosineSums} (h : s.Sound) : ¬ s.DividesByZero := by
  rintro ⟨⟨hA, hB⟩, hzero⟩
  obtain ⟨r, hr, hone⟩ := exists_valueOf?_root (h.normA hA) (h.normB hB)
  obtain rfl : r = 0 := Option.some.inj (hr.symm.trans hzero)
  exact absurd hone (by norm_num)

/-- The clamp does not repair a quotient of zeros. -/
theorem DividesByZero.isNaN_cosine {s : CosineSums} (h : s.DividesByZero) (hdot : valueOf? s.dot = some 0) :
    s.cosine.isNaN = true := by
  obtain ⟨⟨hA, hB⟩, hzero⟩ := h
  rw [cosine, hA, hB]
  exact isNaN_clampUnit (isNaN_div_of_zero hdot hzero)

end CosineSums

namespace GramCounts

/-- What is documented of the cosine, whatever the counts are. -/
structure FollowsConventions (a b : GramCounts) : Prop where
  not_dividesByZero : ¬ (a.sums b).DividesByZero
  both_zero : a.IsZero → b.IsZero → a.cosine b = 1.0
  one_zero : ¬ (a.IsZero ↔ b.IsZero) → a.cosine b = 0.0
  inUnit : ¬ a.IsZero → ¬ b.IsZero → InUnit (a.cosine b)

theorem cosine_nil {a : GramCounts} (h : a ≠ []) : a.cosine [] = 0.0 ∧ cosine [] a = 0.0 := by
  obtain ⟨entry, rest, rfl⟩ := List.exists_cons_of_ne_nil h
  exact ⟨rfl, rfl⟩

/-! ### Hollow sides -/

variable {a b : GramCounts}

theorem IsZero.occurrences_eq (h : a.IsZero) (gram : List Char) : a.occurrences gram = 0 := by
  unfold occurrences
  cases hcount : a.count? gram with
  | none => rfl
  | some n =>
    have hn : n = 0 := h _ (mem_of_lookup_eq_some hcount)
    rw [hn]
    rfl

theorem IsZero.wholeNorm_eq (h : a.IsZero) : a.wholeNorm = 0 := by
  refine List.sum_eq_zero fun n hn => ?_
  obtain ⟨entry, hentry, rfl⟩ := List.mem_map.1 hn
  rw [h entry hentry]
  rfl

theorem wholeDot_of_isZero (h : a.IsZero ∨ b.IsZero) : a.wholeDot b = 0 := by
  refine List.sum_eq_zero fun n hn => ?_
  obtain ⟨entry, hentry, rfl⟩ := List.mem_map.1 hn
  rcases h with ha | hb
  · rw [ha entry hentry]
    exact Nat.zero_mul _
  · rw [hb.occurrences_eq, Nat.mul_zero]

private theorem exists_valueOf?_squaredNorm (a : GramCounts) {start : Float} (hstart : start = 0.0 ∨ start = -0.0) :
    ∃ v, valueOf? (a.squaredNorm start) = some v ∧ (a.IsZero → v = 0) := by
  have hzero : valueOf? start = some 0 := by rcases hstart with rfl | rfl <;> rfl
  obtain ⟨v, hv, -⟩ := squares_bounds (a.map Prod.snd) hzero le_rfl (by positivity)
  rw [← squaredNorm_eq_squares] at hv
  refine ⟨v, hv, fun hcounts => ?_⟩
  have hnorm : valueOf? (a.squaredNorm start) = some (a.wholeNorm : ℚ) := by
    have hle : a.wholeNorm ≤ 2 ^ 53 := by rw [hcounts.wholeNorm_eq]; decide
    rcases hstart with rfl | rfl
    · rw [squaredNorm_zero hle, valueOf?_lengthToFloat hle]
    · exact valueOf?_squaredNorm_neg_zero hle
  rw [hv, hcounts.wholeNorm_eq] at hnorm
  exact Option.some.inj hnorm

private theorem dividesByZero_sumsInto {small large : GramCounts} (hs : small ≠ []) (hl : large ≠ [])
    (h : small.IsZero ∨ large.IsZero) :
    (small.sumsInto large).DividesByZero ∧ valueOf? (small.sumsInto large).dot = some 0 := by
  have hdot := wholeDot_of_isZero h
  -- the norm of the other side may be rounded, but it is finite, so that the product is zero
  obtain ⟨p, hp, hp_zero⟩ := exists_valueOf?_squaredNorm small (.inl rfl)
  obtain ⟨q, hq, hq_zero⟩ := exists_valueOf?_squaredNorm large (.inr rfl)
  have hproduct : p * q = 0 := by
    rcases h with hzero | hzero
    · rw [hp_zero hzero, zero_mul]
    · rw [hq_zero hzero, mul_zero]
  have hmul : valueOf? (small.squaredNorm 0.0 * large.squaredNorm (-0.0)) = some 0 := by
    rw [valueOf?_mul hp hq (z := 0.0) (by rw [hproduct]; rfl), hproduct]
  refine ⟨⟨⟨List.isEmpty_eq_false_iff.2 hs, List.isEmpty_eq_false_iff.2 hl⟩, valueOf?_sqrt_of_zero hmul⟩, ?_⟩
  rw [sumsInto, dot_eq_lengthToFloat (by rw [hdot]; decide), hdot, valueOf?_lengthToFloat (Nat.zero_le _), Nat.cast_zero]

theorem dividesByZero_sums (ha : a ≠ []) (hb : b ≠ []) (h : a.IsZero ∨ b.IsZero) :
    (a.sums b).DividesByZero ∧ valueOf? (a.sums b).dot = some 0 := by
  unfold sums
  split
  · exact dividesByZero_sumsInto ha hb h
  · exact dividesByZero_sumsInto hb ha h.symm

/-- A hollow side is not found empty, and the conventions fail. -/
theorem IsHollow.not_followsConventions (ha : a.IsHollow) (b : GramCounts) :
    ¬ a.FollowsConventions b ∧ ¬ b.FollowsConventions a := by
  rcases eq_or_ne b [] with rfl | hb
  · -- nothing has been counted on either side, but only one of them is found empty
    obtain ⟨hright, hleft⟩ := cosine_nil ha.1
    have hnil : IsZero [] := List.forall_mem_nil _
    have hne : (0.0 : Float) ≠ 1.0 := by decide
    exact ⟨fun h => hne (hright.symm.trans (h.both_zero ha.2 hnil)), fun h => hne (hleft.symm.trans (h.both_zero hnil ha.2))⟩
  · exact ⟨fun h => h.not_dividesByZero (dividesByZero_sums ha.1 hb (.inl ha.2)).1,
      fun h => h.not_dividesByZero (dividesByZero_sums hb ha.1 (.inr ha.2)).1⟩

/-- A side that is not hollow is found empty if nothing has been counted. -/
theorem isZero_iff_eq_nil (h : ¬ a.IsHollow) : a.IsZero ↔ a = [] := by
  refine ⟨fun hzero => ?_, fun hnil => hnil ▸ List.forall_mem_nil _⟩
  by_contra hne
  exact h ⟨hne, hzero⟩

theorem followsConventions_iff : a.FollowsConventions b ↔ ¬ a.IsHollow ∧ ¬ b.IsHollow := by
  refine ⟨fun h => ⟨fun ha => (ha.not_followsConventions b).1 h, fun hb => (hb.not_followsConventions a).2 h⟩, ?_⟩
  rintro ⟨ha, hb⟩
  have hsound := sound_sums ha hb
  refine ⟨hsound.not_dividesByZero, fun hzeroA hzeroB => ?_, fun hone => ?_, fun _ _ => ?_⟩
  · rw [(isZero_iff_eq_nil ha).1 hzeroA, (isZero_iff_eq_nil hb).1 hzeroB]
    rfl
  · rw [isZero_iff_eq_nil ha, isZero_iff_eq_nil hb] at hone
    rcases eq_or_ne a [] with rfl | hne
    · exact (cosine_nil fun hnil => hone (iff_of_true rfl hnil)).2
    · obtain rfl : b = [] := by
        by_contra hnil
        exact hone (iff_of_false hne hnil)
      exact (cosine_nil hne).1
  · rw [cosine_eq_sums]
    exact hsound.inUnit_cosine

/-! ### Entries of zero -/

/-- Lists of grams that count the same: they differ in the order and in entries of zero at most. -/
structure SameCounts (a a' : GramCounts) : Prop where
  left : a.Pairwise (·.1 ≠ ·.1)
  right : a'.Pairwise (·.1 ≠ ·.1)
  occurrences : ∀ gram, a.occurrences gram = a'.occurrences gram

variable {a' b' : GramCounts}

theorem isEmpty_iff_occurrences (distinct : a.Pairwise (·.1 ≠ ·.1)) (h : ¬ a.IsHollow) :
    a.isEmpty = true ↔ ∀ gram, a.occurrences gram = 0 := by
  constructor
  · intro hempty gram
    rw [List.isEmpty_iff.1 hempty]
    rfl
  · intro hcounts
    refine List.isEmpty_iff.2 ((isZero_iff_eq_nil h).1 fun entry hentry => ?_)
    exact UInt32.toNat_inj.1 ((occurrences_of_mem distinct hentry).symm.trans (hcounts entry.1))

theorem SameCounts.wholeSumsInto_eq (ha : a.SameCounts a') (hb : b.SameCounts b') (hollow_a : ¬ a.IsHollow)
    (hollow_b : ¬ b.IsHollow) (hollow_a' : ¬ a'.IsHollow) (hollow_b' : ¬ b'.IsHollow) :
    a.wholeSumsInto b = a'.wholeSumsInto b' := by
  -- the texts that occur on any of the sides
  obtain ⟨keys, hkeys, hcover⟩ : ∃ keys : List (List Char), keys.Nodup ∧
      ∀ entry ∈ a ++ a' ++ (b ++ b'), entry.1 ∈ keys :=
    ⟨((a ++ a' ++ (b ++ b')).map Prod.fst).dedup, List.nodup_dedup _,
      fun entry hentry => List.mem_dedup.2 (List.mem_map_of_mem hentry)⟩
  simp only [List.forall_mem_append] at hcover
  obtain ⟨⟨hcover_a, hcover_a'⟩, hcover_b, hcover_b'⟩ := hcover
  have hempty_a : a.isEmpty = a'.isEmpty := Bool.eq_iff_iff.2 (by
    rw [isEmpty_iff_occurrences ha.left hollow_a, isEmpty_iff_occurrences ha.right hollow_a']
    simp only [ha.occurrences])
  have hempty_b : b.isEmpty = b'.isEmpty := Bool.eq_iff_iff.2 (by
    rw [isEmpty_iff_occurrences hb.left hollow_b, isEmpty_iff_occurrences hb.right hollow_b']
    simp only [hb.occurrences])
  rw [wholeSumsInto, wholeSumsInto, hempty_a, hempty_b, wholeDot_eq_sum_map ha.left b hkeys hcover_a,
    wholeDot_eq_sum_map ha.right b' hkeys hcover_a', wholeNorm_eq_sum ha.left hkeys hcover_a,
    wholeNorm_eq_sum ha.right hkeys hcover_a', wholeNorm_eq_sum hb.left hkeys hcover_b,
    wholeNorm_eq_sum hb.right hkeys hcover_b']
  simp only [ha.occurrences, hb.occurrences]

theorem cosine_eq_of_sameCounts (ha : a.SameCounts a') (hb : b.SameCounts b') (h : a.FollowsConventions b)
    (h' : a'.FollowsConventions b') (hexact : (a.wholeSumsInto b).Exact) : a.cosine b = a'.cosine b' := by
  rw [followsConventions_iff] at h h'
  have hsums := ha.wholeSumsInto_eq hb h.1 h.2 h'.1 h'.2
  have hexact' : (a'.wholeSumsInto b').Exact := hsums ▸ hexact
  rw [cosine_eq_wholeCosine ha.left hb.left hexact.dot hexact.normA hexact.normB,
    cosine_eq_wholeCosine ha.right hb.right hexact'.dot hexact'.normA hexact'.normB]
  exact congrArg (fun s => s.doubles.cosine) hsums

end GramCounts

/-- The conventions hold of two lists of grams if and only if neither is hollow.  Beside a side with entries, a hollow side
leads to a division of zero by zero; beside a side without entries it scores 0, although nothing has been counted on either.
Where the conventions hold, entries of zero may be added and removed. -/
theorem cosine_conventions (a b : GramCounts) :
    (a.FollowsConventions b ↔ ¬ a.IsHollow ∧ ¬ b.IsHollow) ∧
      (a.IsHollow ∨ b.IsHollow → if a = [] ∨ b = [] then a.cosine b = 0.0
        else (a.sums b).DividesByZero ∧ (a.cosine b).isNaN = true) ∧
      ∀ a' b' : GramCounts, a.SameCounts a' → b.SameCounts b' → a.FollowsConventions b → a'.FollowsConventions b' →
        (a.wholeSumsInto b).Exact → a.cosine b = a'.cosine b' := by
  refine ⟨GramCounts.followsConventions_iff, fun hollow => ?_,
    fun a' b' ha hb h h' hexact => GramCounts.cosine_eq_of_sameCounts ha hb h h' hexact⟩
  split_ifs with hnil
  · rcases hnil with rfl | rfl
    · exact (GramCounts.cosine_nil (hollow.resolve_left fun h => h.1 rfl).1).2
    · exact (GramCounts.cosine_nil (hollow.resolve_right fun h => h.1 rfl).1).1
  · rw [not_or] at hnil
    obtain ⟨hdivides, hdot⟩ := GramCounts.dividesByZero_sums hnil.1 hnil.2 (hollow.imp And.right And.right)
    rw [GramCounts.cosine_eq_sums]
    exact ⟨hdivides, hdivides.isNaN_cosine hdot⟩

/-- Two grams that have been counted zero times change which side is looked up in the other, but not the cosine. -/
theorem cosine_with_two_entries_of_zero :
    let a : GramCounts := [(['x'], 1), (['y'], 0), (['z'], 0)]
    let b : GramCounts := [(['x'], 2), (['y'], 1)]
    a.cosine b = GramCounts.cosine [(['x'], 1)] b := by
  intro a b
  have hcounts : a.SameCounts [(['x'], 1)] := by
    refine ⟨by decide, by decide, fun gram => ?_⟩
    simp only [a, GramCounts.occurrences, GramCounts.count?, List.lookup]
    cases gram == ['x'] <;> cases gram == ['y'] <;> cases gram == ['z'] <;> rfl
  have hollow : ∀ {entry : List Char × UInt32} {rest : GramCounts}, entry.2 ≠ 0 →
      ¬ GramCounts.IsHollow (entry :: rest) := fun hne hhollow => hne (hhollow.2 _ List.mem_cons_self)
  have hsame : b.SameCounts b := ⟨by decide, by decide, fun _ => rfl⟩
  obtain ⟨hconventions, -, hequal⟩ := cosine_conventions a b
  obtain ⟨hconventions', -⟩ := cosine_conventions [(['x'], 1)] b
  exact hequal _ _ hcounts hsame (hconventions.2 ⟨hollow (by decide), hollow (by decide)⟩)
    (hconventions'.2 ⟨hollow (by decide), hollow (by decide)⟩) ⟨by decide, by decide, by decide⟩

/-- A gram that has been counted zero times beside one that has been counted once. -/
theorem not_followsConventions_of_one_zero :
    ¬ GramCounts.FollowsConventions [(['a'], 0)] [(['a'], 1)] ∧
      (GramCounts.cosine [(['a'], 0)] [(['a'], 1)]).isNaN = true := by
  have hzero : GramCounts.IsZero [(['a'], 0)] := by
    intro entry hentry
    rw [List.mem_singleton.1 hentry]
  obtain ⟨hdivides, hdot⟩ := GramCounts.dividesByZero_sums (a := [(['a'], 0)]) (b := [(['a'], 1)])
    (List.cons_ne_nil _ _) (List.cons_ne_nil _ _) (.inl hzero)
  rw [GramCounts.cosine_eq_sums]
  exact ⟨fun h => h.not_dividesByZero hdivides, hdivides.isNaN_cosine hdot⟩

end Likeness
