import Likeness.Proofs.Range

/-!
# Cosines in whole numbers

The sums of a cosine are sums of whole numbers, for tallies as for grams.  Grams that are listed along an enumeration of
their texts are a tally, and have the same sums in it.

* (sums) `WholeSums` holds the sums as whole numbers; `Tally.wholeSums` and `GramCounts.wholeSums` add them up as the two
  cosines do.  While they are exact, the doubles are the same numbers (`Tally.are_wholeSums`, `GramCounts.are_wholeSums`).
* (enumerations) `sum_map_occurrences` is a sum over entries as a sum over texts, of which some may have no entry.
* `cosine_eq_cosine?_along` compares grams with the tallies along an enumeration.
-/

namespace Likeness

/-- What a cosine is made of, in whole numbers. -/
structure WholeSums where
  isZeroA : Bool
  isZeroB : Bool
  dot : Nat
  normA : Nat
  normB : Nat
  deriving DecidableEq

namespace WholeSums

def exchange (s : WholeSums) : WholeSums :=
  ⟨s.isZeroB, s.isZeroA, s.dot, s.normB, s.normA⟩

/-- Sums in the range where whole numbers are doubles and are added up exactly. -/
structure Exact (s : WholeSums) : Prop where
  dot : s.dot ≤ 2 ^ 53
  normA : s.normA ≤ 2 ^ 53
  normB : s.normB ≤ 2 ^ 53

theorem Exact.exchange {s : WholeSums} (h : s.Exact) : s.exchange.Exact :=
  ⟨h.dot, h.normB, h.normA⟩

end WholeSums

/-- The sums of a cosine are the whole numbers that they stand for. -/
structure CosineSums.Are (s : CosineSums) (w : WholeSums) : Prop where
  isZeroA : s.isZeroA = w.isZeroA
  isZeroB : s.isZeroB = w.isZeroB
  dot : valueOf? s.dot = some (w.dot : ℚ)
  normA : valueOf? s.normA = some (w.normA : ℚ)
  normB : valueOf? s.normB = some (w.normB : ℚ)

namespace WholeSums

def doubles (s : WholeSums) : CosineSums where
  isZeroA := s.isZeroA
  isZeroB := s.isZeroB
  dot := lengthToFloat s.dot
  normA := lengthToFloat s.normA
  normB := lengthToFloat s.normB

theorem Exact.are_doubles {s : WholeSums} (h : s.Exact) : s.doubles.Are s :=
  ⟨rfl, rfl, valueOf?_lengthToFloat h.dot, valueOf?_lengthToFloat h.normA, valueOf?_lengthToFloat h.normB⟩

end WholeSums

/-! ### Tallies -/

namespace Tally

/-- The sums of the cosine of two tallies, as whole numbers. -/
def wholeSums (u v : Tally) : WholeSums where
  isZeroA := u.isZero
  isZeroB := v.isZero
  dot := ((u.counts.zip v.counts).map fun slot => slot.1.toNat * slot.2.toNat).sum
  normA := ((u.counts.zip v.counts).map fun slot => slot.1.toNat * slot.1.toNat).sum
  normB := ((u.counts.zip v.counts).map fun slot => slot.2.toNat * slot.2.toNat).sum

theorem wholeSums_exchange (u v : Tally) : v.wholeSums u = (u.wholeSums v).exchange := by
  rw [wholeSums, WholeSums.exchange, wholeSums, ← List.zip_swap]
  simp only [List.map_map, Function.comp_def, Prod.fst_swap, Prod.snd_swap, Nat.mul_comm]

private theorem foldl_slots_eq {f g : UInt32 × UInt32 → UInt32} (slots : List (UInt32 × UInt32))
    (h : (slots.map fun slot => (f slot).toNat * (g slot).toNat).sum ≤ 2 ^ 53) :
    slots.foldl (fun s slot => s + (f slot).toFloat * (g slot).toFloat) 0.0 =
      lengthToFloat (slots.map fun slot => (f slot).toNat * (g slot).toNat).sum := by
  rw [zero_eq_lengthToFloat, ← Nat.zero_add (List.sum _)]
  refine foldl_eq_lengthToFloat slots (fun slot s hs => ?_) 0 (by omega)
  rw [GramCounts.toFloat_mul_toFloat (by omega), lengthToFloat_add hs]

theorem sums_eq_doubles {u v : Tally} (h : (u.wholeSums v).Exact) : u.sums v = (u.wholeSums v).doubles := by
  simp only [sums, slots, List.foldl_map]
  rw [foldl_slots_eq _ h.dot, foldl_slots_eq _ h.normA, foldl_slots_eq _ h.normB]
  rfl

theorem are_wholeSums {u v : Tally} (h : (u.wholeSums v).Exact) : (u.sums v).Are (u.wholeSums v) :=
  sums_eq_doubles h ▸ h.are_doubles

end Tally

/-! ### Grams -/

namespace GramCounts

/-- The sums of the cosine of two lists of grams, as whole numbers, if the first is looked up in the second. -/
def wholeSumsInto (small large : GramCounts) : WholeSums where
  isZeroA := small.isEmpty
  isZeroB := large.isEmpty
  dot := small.wholeDot large
  normA := small.wholeNorm
  normB := large.wholeNorm

/-- The sums of the cosine of two lists of grams, as whole numbers. -/
def wholeSums (a b : GramCounts) : WholeSums :=
  if a.length ≤ b.length then a.wholeSumsInto b else b.wholeSumsInto a

private theorem are_wholeSumsInto {small large : GramCounts} (h : (small.wholeSumsInto large).Exact) :
    (small.sumsInto large).Are (small.wholeSumsInto large) where
  isZeroA := rfl
  isZeroB := rfl
  dot := by
    rw [sumsInto, dot_eq_lengthToFloat h.dot]
    exact valueOf?_lengthToFloat h.dot
  normA := by
    rw [sumsInto, squaredNorm_zero h.normA]
    exact valueOf?_lengthToFloat h.normA
  normB := valueOf?_squaredNorm_neg_zero h.normB

theorem are_wholeSums {a b : GramCounts} (h : (a.wholeSums b).Exact) : (a.sums b).Are (a.wholeSums b) := by
  unfold sums wholeSums at *
  split at h <;> simp only [*, if_true, if_false] <;> exact are_wholeSumsInto h

/-! ### Enumerations -/

/-- The counts of grams in the order of an enumeration.  A gram without an entry counts nothing. -/
def along (keys : List (List Char)) (a : GramCounts) : Tally :=
  ⟨keys.map fun key => (a.count? key).getD 0⟩

theorem occurrences_of_notMem {a : GramCounts} {key : List Char} (h : key ∉ a.map Prod.fst) : a.occurrences key = 0 := by
  have hnone : a.count? key = none := by
    refine List.lookup_eq_none_iff.2 fun entry hentry => ?_
    rw [bne_iff_ne]
    rintro rfl
    exact h (List.mem_map_of_mem hentry)
  rw [occurrences, hnone]
  rfl

variable {keys : List (List Char)}

/-- A sum over texts, in which those without an entry do not count, is a sum over entries. -/
theorem sum_map_occurrences {a : GramCounts} (distinct : a.Pairwise (·.1 ≠ ·.1)) (hkeys : keys.Nodup)
    (hcover : ∀ entry ∈ a, entry.1 ∈ keys) {f : List Char → Nat → Nat} (hzero : ∀ key, f key 0 = 0) :
    (keys.map fun key => f key (a.occurrences key)).sum = (a.map fun entry => f entry.1 entry.2.toNat).sum := by
  have hnodup : (a.map Prod.fst).Nodup := List.pairwise_map.2 distinct
  have hsubset : a.map Prod.fst ⊆ keys := by
    intro key hkey
    obtain ⟨entry, hentry, rfl⟩ := List.mem_map.1 hkey
    exact hcover entry hentry
  -- the enumeration is the texts of the entries and others, up to the order
  obtain ⟨others, hperm⟩ : ∃ others, keys.Perm (a.map Prod.fst ++ others) := by
    obtain ⟨all, hall, hsublist⟩ := List.subperm_iff.1 (List.subperm_of_subset hnodup hsubset)
    obtain ⟨others, hothers⟩ := hsublist.exists_perm_append
    exact ⟨others, hall.symm.trans hothers⟩
  have hdisjoint := (List.nodup_append'.1 (hperm.nodup hkeys)).2.2
  have hentries : ∀ entry ∈ a, f entry.1 (a.occurrences entry.1) = f entry.1 entry.2.toNat := fun entry hentry => by
    rw [occurrences_of_mem distinct hentry]
  have hothers : (others.map fun key => f key (a.occurrences key)).sum = 0 := by
    refine List.sum_eq_zero fun n hn => ?_
    obtain ⟨key, hkey, rfl⟩ := List.mem_map.1 hn
    rw [occurrences_of_notMem fun hmem => hdisjoint hmem hkey, hzero]
  calc (keys.map fun key => f key (a.occurrences key)).sum
    _ = ((a.map Prod.fst ++ others).map fun key => f key (a.occurrences key)).sum := (hperm.map _).sum_eq
    _ = (a.map fun entry => f entry.1 (a.occurrences entry.1)).sum := by
      rw [List.map_append, List.sum_append, hothers, Nat.add_zero, List.map_map]
      rfl
    _ = (a.map fun entry => f entry.1 entry.2.toNat).sum := by rw [List.map_congr_left hentries]

theorem wholeNorm_eq_sum {a : GramCounts} (distinct : a.Pairwise (·.1 ≠ ·.1)) (hkeys : keys.Nodup)
    (hcover : ∀ entry ∈ a, entry.1 ∈ keys) :
    a.wholeNorm = (keys.map fun key => a.occurrences key * a.occurrences key).sum :=
  (sum_map_occurrences distinct hkeys hcover (f := fun _ n => n * n) fun _ => rfl).symm

theorem wholeDot_eq_sum_map {a : GramCounts} (distinct : a.Pairwise (·.1 ≠ ·.1)) (b : GramCounts) (hkeys : keys.Nodup)
    (hcover : ∀ entry ∈ a, entry.1 ∈ keys) :
    a.wholeDot b = (keys.map fun key => a.occurrences key * b.occurrences key).sum :=
  (sum_map_occurrences distinct hkeys hcover (f := fun key n => n * b.occurrences key) fun _ => Nat.zero_mul _).symm

/-- The tally along an enumeration is zero if there are no grams. -/
theorem isZero_along {a : GramCounts} (ha : a.IsProfile) (hcover : ∀ entry ∈ a, entry.1 ∈ keys) :
    (a.along keys).isZero = a.isEmpty := by
  cases a with
  | nil => simp [along, Tally.isZero, count?]
  | cons entry a =>
    have hcount : count? (entry :: a) entry.1 = some entry.2 :=
      (lookup_eq_some_iff_mem ha.distinct).2 List.mem_cons_self
    have hzero : (along keys (entry :: a)).isZero ≠ true := fun hall => by
      have hslot := List.all_eq_true.1 hall _ (List.mem_map_of_mem (hcover entry List.mem_cons_self))
      rw [hcount] at hslot
      exact ha.ne_zero entry List.mem_cons_self (by simpa using hslot)
    simpa using hzero

theorem wholeSumsInto_eq_along {a b : GramCounts} (ha : a.IsProfile) (hb : b.IsProfile) (hkeys : keys.Nodup)
    (hcover_a : ∀ entry ∈ a, entry.1 ∈ keys) (hcover_b : ∀ entry ∈ b, entry.1 ∈ keys) :
    a.wholeSumsInto b = (a.along keys).wholeSums (b.along keys) := by
  rw [wholeSumsInto, Tally.wholeSums, isZero_along ha hcover_a, isZero_along hb hcover_b,
    wholeDot_eq_sum_map ha.distinct b hkeys hcover_a, wholeNorm_eq_sum ha.distinct hkeys hcover_a,
    wholeNorm_eq_sum hb.distinct hkeys hcover_b]
  simp only [along, List.zip_map', List.map_map, Function.comp_def, occurrences]

/-- The order in which grams are looked up in each other is no more than an exchange of the sides. -/
theorem wholeSums_along {a b : GramCounts} (ha : a.IsProfile) (hb : b.IsProfile) (hkeys : keys.Nodup)
    (hcover_a : ∀ entry ∈ a, entry.1 ∈ keys) (hcover_b : ∀ entry ∈ b, entry.1 ∈ keys) :
    a.wholeSums b = (a.along keys).wholeSums (b.along keys) ∨
      a.wholeSums b = ((a.along keys).wholeSums (b.along keys)).exchange := by
  unfold wholeSums
  split
  · exact .inl (wholeSumsInto_eq_along ha hb hkeys hcover_a hcover_b)
  · rw [← Tally.wholeSums_exchange]
    exact .inr (wholeSumsInto_eq_along hb ha hkeys hcover_b hcover_a)

end GramCounts

/-- Grams and their tallies along an enumeration of texts, which lists none twice and may list more than those that occur.
The sums of the two cosines are the same, up to an exchange of the sides, and so is what is found empty; and as long as the
sums stay in the range of exact doubles, they are these doubles and the cosines are the same. -/
theorem cosine_eq_cosine?_along {a b : GramCounts} (ha : a.IsProfile) (hb : b.IsProfile) {keys : List (List Char)}
    (hkeys : keys.Nodup) (hcover : ∀ entry ∈ a ++ b, entry.1 ∈ keys) :
    let u := a.along keys
    let v := b.along keys
    (a.wholeSums b = u.wholeSums v ∨ a.wholeSums b = (u.wholeSums v).exchange) ∧
      ((u.wholeSums v).Exact →
        (a.sums b).Are (a.wholeSums b) ∧ (u.sums v).Are (u.wholeSums v) ∧ u.cosine? v = some (a.cosine b)) := by
  intro u v
  have hcover_a : ∀ entry ∈ a, entry.1 ∈ keys := fun entry hentry => hcover entry (List.mem_append_left _ hentry)
  have hcover_b : ∀ entry ∈ b, entry.1 ∈ keys := fun entry hentry => hcover entry (List.mem_append_right _ hentry)
  have hsums := GramCounts.wholeSums_along ha hb hkeys hcover_a hcover_b
  refine ⟨hsums, fun hexact => ?_⟩
  have hexact' : (a.wholeSums b).Exact := by
    rcases hsums with hsame | hexchanged
    · exact hsame ▸ hexact
    · exact hexchanged ▸ hexact.exchange
  refine ⟨GramCounts.are_wholeSums hexact', Tally.are_wholeSums hexact, ?_⟩
  have hdimension : u.dimension = v.dimension := by simp [u, v, GramCounts.along, Tally.dimension]
  have hinto : a.wholeSumsInto b = u.wholeSums v :=
    GramCounts.wholeSumsInto_eq_along ha hb hkeys hcover_a hcover_b
  rw [Tally.cosine?_eq_sums hdimension, Tally.sums_eq_doubles hexact, ← hinto]
  have hexact_into : (a.wholeSumsInto b).Exact := hinto ▸ hexact
  rw [GramCounts.cosine_eq_wholeCosine ha.distinct hb.distinct hexact_into.dot hexact_into.normA hexact_into.normB]
  rfl

/-- The single tokens of two sequences, the second having fewer different ones, along an enumeration with one more text. -/
theorem cosine_along_three_texts :
    let a := gramCounts 1 [['x'], ['y'], ['x']]
    let b := gramCounts 1 [['y'], ['y'], ['y']]
    let keys : List (List Char) := [['z'], ['y'], ['x']]
    (a.along keys).counts = [0, 1, 2] ∧ (b.along keys).counts = [0, 3, 0] ∧ a.wholeSums b = ⟨false, false, 3, 9, 5⟩ ∧
      (a.along keys).cosine? (b.along keys) = some (a.cosine b) := by
  intro a b keys
  have ha : a = [(['x'], 2), (['y'], 1)] := by decide +kernel
  have hb : b = [(['y'], 3)] := by decide +kernel
  have hsums : (a.along keys).wholeSums (b.along keys) = ⟨false, false, 3, 5, 9⟩ := by
    rw [ha, hb]
    decide
  have hcover : ∀ entry ∈ a ++ b, entry.1 ∈ keys := by
    rw [ha, hb]
    decide
  obtain ⟨-, hcosine⟩ := cosine_eq_cosine?_along (isProfile_gramCounts 1 (by decide)) (isProfile_gramCounts 1 (by decide))
    (by decide) hcover
  have hexact : ((a.along keys).wholeSums (b.along keys)).Exact := by
    rw [hsums]
    exact ⟨by decide, by decide, by decide⟩
  refine ⟨?_, ?_, ?_, (hcosine hexact).2.2⟩
  · rw [ha]
    decide
  · rw [hb]
    decide
  · rw [ha, hb]
    decide

end Likeness
