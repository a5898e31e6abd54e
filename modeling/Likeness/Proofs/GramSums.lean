import Likeness.Comparison
import Likeness.Proofs.WholeDoubles

/-!
# Sums over grams

The sums in the cosine of two lists of grams are sums of whole numbers, and for sequences of moderate length they stay
where doubles are exact.  So the order of the entries, which nothing fixes, does not matter.

* (counts) `perm_gramCounts` says which entries the grams of a sequence have; their counts add up to the number of windows
  (`total_gramCounts_le`).
* (sums) `wholeDot` and `wholeNorm` are the sums as whole numbers.  They are at most the product of the totals
  (`wholeDot_le`, `wholeNorm_le`), and neither depends on the order of entries (`wholeDot_perm`, `wholeNorm_perm`) nor
  `wholeDot` on the order of the sides (`wholeDot_comm`).
* (doubles) as long as the sums are exact, the cosine is made of the whole numbers, whichever side is looked up in the other
  (`cosine_eq_wholeCosine`).
* (order) `Moderate.exactSums` says that nothing is rounded on the way if the totals are moderate.  `cosine_of_any_order` is
  the law for two sequences.
-/

namespace Likeness

/-- The cosine from its sums is the same from either side. -/
theorem cosineOfSums_comm (isZeroA isZeroB : Bool) (dot normA normB : Float) :
    cosineOfSums isZeroA isZeroB dot normA normB = cosineOfSums isZeroB isZeroA dot normB normA := by
  cases isZeroA <;> cases isZeroB <;> simp only [cosineOfSums]
  rw [float_mul_comm]

/-! ### Counts of grams -/

theorem length_windows_le {α : Type} (width : Nat) (sequence : List α) :
    (windows width sequence).length ≤ sequence.length := by
  induction sequence with
  | nil => simp [windows]
  | cons x xs ih =>
    rw [windows]
    split
    · simpa using ih
    · simp

namespace GramCounts

private theorem getD_foldl_bump (grams : List (List Char)) (tree : Index) (key : List Char) :
    (grams.foldl Index.bump tree).getD key 0 = tree.getD key 0 + UInt32.ofNat (grams.count key) := by
  induction grams generalizing tree with
  | nil => simp
  | cons gram grams ih =>
    rw [List.foldl_cons, ih, Index.bump, Std.TreeMap.getD_insert, List.count_cons]
    by_cases h : gram = key
    · subst h
      simp [UInt32.ofNat_add, UInt32.add_assoc, UInt32.add_comm 1]
    · simp [h]

private theorem mem_foldl_bump (grams : List (List Char)) (tree : Index) (key : List Char) :
    key ∈ grams.foldl Index.bump tree ↔ key ∈ grams ∨ key ∈ tree := by
  induction grams generalizing tree with
  | nil => simp
  | cons gram grams ih =>
    rw [List.foldl_cons, ih, Index.bump, Std.TreeMap.mem_insert, Std.LawfulEqCmp.compare_eq_iff_eq, List.mem_cons]
    tauto

private theorem getElem?_foldl_bump (grams : List (List Char)) (key : List Char) :
    (grams.foldl Index.bump ∅)[key]? = if key ∈ grams then some (UInt32.ofNat (grams.count key)) else none := by
  have hmem : key ∈ grams.foldl Index.bump ∅ ↔ key ∈ grams := by simp [mem_foldl_bump]
  split
  · next h =>
    have hvalue : (grams.foldl Index.bump ∅)[key]? = some ((grams.foldl Index.bump ∅).getD key 0) :=
      Std.TreeMap.getElem?_eq_some_getD (hmem.2 h)
    rw [hvalue, getD_foldl_bump]
    simp
  · next h => exact Std.TreeMap.getElem?_eq_none fun hkey => h (hmem.1 hkey)

/-- A gram is looked up with the number of its windows. -/
theorem count?_gramCounts (width : Nat) (sequence : List Token) (key : List Char) :
    let grams := (windows width sequence).map gram
    (gramCounts width sequence).count? key = if key ∈ grams then some (UInt32.ofNat (grams.count key)) else none := by
  intro grams
  rw [gramCounts, count?_toList, getElem?_foldl_bump]

end GramCounts

/-- In a sequence of less than 2^32 tokens no count of a gram overflows. -/
theorem toNat_ofNat_count_gram (width : Nat) {sequence : List Token} (h : sequence.length < 2 ^ 32) (key : List Char) :
    (UInt32.ofNat (((windows width sequence).map gram).count key)).toNat = ((windows width sequence).map gram).count key := by
  refine UInt32.toNat_ofNat_of_lt' ?_
  calc ((windows width sequence).map gram).count key
    _ ≤ ((windows width sequence).map gram).length := List.count_le_length
    _ ≤ sequence.length := (List.length_map _).trans_le (length_windows_le width sequence)
    _ < 2 ^ 32 := h

/-- The entries for a sequence: every gram that occurs in it, with the number of its windows. -/
theorem perm_gramCounts (width : Nat) (sequence : List Token) :
    let grams := (windows width sequence).map gram
    (gramCounts width sequence).Perm (grams.dedup.map fun g => (g, UInt32.ofNat (grams.count g))) := by
  intro grams
  have hnodup : (gramCounts width sequence).Nodup :=
    (GramCounts.distinct_toList _).imp fun h same => h (by rw [same])
  have hnodup' : (grams.dedup.map fun g => (g, UInt32.ofNat (grams.count g))).Nodup :=
    grams.nodup_dedup.map fun g g' same => (Prod.mk.inj same).1
  refine (List.perm_ext_iff_of_nodup hnodup hnodup').2 fun ⟨key, n⟩ => ?_
  rw [gramCounts, Std.TreeMap.mem_toList_iff_getElem?_eq_some, GramCounts.getElem?_foldl_bump]
  change (if key ∈ grams then some (UInt32.ofNat (grams.count key)) else none) = some n ↔ _
  by_cases h : key ∈ grams
  · simp [h]
  · simp only [if_neg h, reduceCtorEq, false_iff, List.mem_map, List.mem_dedup]
    rintro ⟨g, hg, same⟩
    exact h ((Prod.mk.inj same).1 ▸ hg)

namespace GramCounts

/-! ### Whole sums -/

/-- The sum of all counts. -/
def total (a : GramCounts) : Nat :=
  (a.map fun entry => entry.2.toNat).sum

/-- How often a gram is counted, which is zero times if it has no entry. -/
def occurrences (a : GramCounts) (gram : List Char) : Nat :=
  ((a.count? gram).getD 0).toNat

/-- The products of the counts on both sides, added up as whole numbers. -/
def wholeDot (a b : GramCounts) : Nat :=
  (a.map fun entry => entry.2.toNat * b.occurrences entry.1).sum

/-- The squares of the counts, added up as whole numbers. -/
def wholeNorm (a : GramCounts) : Nat :=
  (a.map fun entry => entry.2.toNat * entry.2.toNat).sum

theorem total_perm {a a' : GramCounts} (h : a.Perm a') : a.total = a'.total :=
  (h.map _).sum_eq

theorem wholeNorm_perm {a a' : GramCounts} (h : a.Perm a') : a.wholeNorm = a'.wholeNorm :=
  (h.map _).sum_eq

theorem le_total_of_mem {a : GramCounts} {key : List Char} {n : UInt32} (h : (key, n) ∈ a) : n.toNat ≤ a.total :=
  List.single_le_sum (by simp) _ (List.mem_map.2 ⟨_, h, rfl⟩)

theorem occurrences_of_mem {a : GramCounts} (distinct : a.Pairwise (·.1 ≠ ·.1)) {key : List Char} {n : UInt32}
    (h : (key, n) ∈ a) : a.occurrences key = n.toNat := by
  rw [occurrences, count?, (lookup_eq_some_iff_mem distinct).2 h, Option.getD_some]

theorem occurrences_le_total (a : GramCounts) (gram : List Char) : a.occurrences gram ≤ a.total := by
  unfold occurrences
  cases h : a.count? gram with
  | none => simp
  | some n => exact le_total_of_mem (mem_of_lookup_eq_some h)

/-- The sum of products is at most the product of the totals. -/
theorem wholeDot_le (a b : GramCounts) : a.wholeDot b ≤ a.total * b.total := by
  rw [wholeDot, total, ← List.sum_map_mul_right]
  exact List.sum_le_sum fun (key, n) _ => Nat.mul_le_mul_left _ (b.occurrences_le_total key)

theorem wholeNorm_le (a : GramCounts) : a.wholeNorm ≤ a.total * a.total := by
  conv => rhs; lhs; rw [total]
  rw [wholeNorm, ← List.sum_map_mul_right]
  exact List.sum_le_sum fun (key, n) h => Nat.mul_le_mul_left _ (le_total_of_mem h)

theorem total_prefix_le {before a : GramCounts} (h : before <+: a) : before.total ≤ a.total :=
  (h.sublist.map _).sum_le_sum (by simp)

private theorem occurrences_cons (key : List Char) (n : UInt32) (a : GramCounts) (gram : List Char) :
    occurrences ((key, n) :: a) gram = if key = gram then n.toNat else a.occurrences gram := by
  unfold occurrences count?
  by_cases h : key = gram
  · simp [h]
  · simp [h, lookup_cons_of_ne (Ne.symm h)]

private theorem occurrences_eq_sum {a : GramCounts} (distinct : a.Pairwise (·.1 ≠ ·.1)) (gram : List Char) :
    a.occurrences gram = (a.map fun entry => if entry.1 = gram then entry.2.toNat else 0).sum := by
  induction a with
  | nil => rfl
  | cons entry a ih =>
    obtain ⟨key, n⟩ := entry
    rw [List.pairwise_cons] at distinct
    rw [occurrences_cons, List.map_cons, List.sum_cons]
    by_cases h : key = gram
    · subst h
      -- no later entry has this key
      rw [if_pos rfl, if_pos rfl, List.sum_eq_zero, Nat.add_zero]
      intro m hm
      obtain ⟨entry, hentry, rfl⟩ := List.mem_map.1 hm
      exact if_neg (distinct.1 entry hentry).symm
    · rw [if_neg h, if_neg h, Nat.zero_add, ih distinct.2]

theorem occurrences_perm {a a' : GramCounts} (distinct : a.Pairwise (·.1 ≠ ·.1)) (h : a.Perm a') (gram : List Char) :
    a.occurrences gram = a'.occurrences gram := by
  have distinct' : a'.Pairwise (·.1 ≠ ·.1) := h.pairwise distinct Ne.symm
  rw [occurrences_eq_sum distinct, occurrences_eq_sum distinct']
  exact (h.map _).sum_eq

theorem wholeDot_perm {a a' b b' : GramCounts} (distinct : b.Pairwise (·.1 ≠ ·.1)) (ha : a.Perm a') (hb : b.Perm b') :
    a.wholeDot b = a'.wholeDot b' := by
  rw [wholeDot, wholeDot, (ha.map _).sum_eq]
  simp only [occurrences_perm distinct hb]

private theorem wholeDot_eq_sum (a : GramCounts) {b : GramCounts} (distinct : b.Pairwise (·.1 ≠ ·.1)) :
    a.wholeDot b = (a.map fun x => (b.map fun y => if y.1 = x.1 then x.2.toNat * y.2.toNat else 0).sum).sum := by
  simp only [wholeDot, occurrences_eq_sum distinct, ← List.sum_map_mul_left, mul_ite, mul_zero]

/-- The sum of products is the same from either side. -/
theorem wholeDot_comm {a b : GramCounts} (ha : a.Pairwise (·.1 ≠ ·.1)) (hb : b.Pairwise (·.1 ≠ ·.1)) :
    a.wholeDot b = b.wholeDot a := by
  have hswap := @Multiset.sum_map_sum_map _ _ _ _ (a : Multiset (List Char × UInt32)) (b : Multiset (List Char × UInt32))
    fun x y => if y.1 = x.1 then x.2.toNat * y.2.toNat else 0
  simp only [Multiset.map_coe, Multiset.sum_coe] at hswap
  rw [wholeDot_eq_sum a hb, hswap, wholeDot_eq_sum b ha]
  simp only [eq_comm, Nat.mul_comm]

/-! ### Sums of doubles -/

theorem toFloat_mul_toFloat {m n : UInt32} (h : m.toNat * n.toNat ≤ 2 ^ 53) :
    m.toFloat * n.toFloat = lengthToFloat (m.toNat * n.toNat) := by
  have word : ∀ k : UInt32, k.toNat ≤ 2 ^ 53 := fun k => k.toNat_lt.le.trans (by decide)
  rw [toFloat_eq_lengthToFloat, toFloat_eq_lengthToFloat, lengthToFloat_mul (word m) (word n) h]

/-- The sum of products is the whole number that it stands for. -/
theorem dot_eq_lengthToFloat {a b : GramCounts} (h : a.wholeDot b ≤ 2 ^ 53) :
    a.dot b = lengthToFloat (a.wholeDot b) := by
  unfold wholeDot at h ⊢
  rw [dot_eq, dotBy, zero_eq_lengthToFloat, ← Nat.zero_add (List.sum _)]
  refine foldl_eq_lengthToFloat a (fun entry s hs => ?_) 0 (by omega)
  obtain ⟨key, n⟩ := entry
  unfold occurrences at hs ⊢
  cases hkey : b.count? key with
  | none => simp [hkey]
  | some m =>
    simp only [hkey, Option.getD_some] at hs ⊢
    rw [toFloat_mul_toFloat (by omega), lengthToFloat_add hs]

theorem squaredNorm_eq_lengthToFloat {a : GramCounts} {s : Nat} (h : s + a.wholeNorm ≤ 2 ^ 53) :
    a.squaredNorm (lengthToFloat s) = lengthToFloat (s + a.wholeNorm) := by
  unfold wholeNorm at h ⊢
  unfold squaredNorm
  refine foldl_eq_lengthToFloat a (fun entry s hs => ?_) s h
  obtain ⟨key, n⟩ := entry
  dsimp only at hs ⊢
  rw [toFloat_mul_toFloat (by omega), lengthToFloat_add hs]

theorem squaredNorm_zero {a : GramCounts} (h : a.wholeNorm ≤ 2 ^ 53) :
    a.squaredNorm 0.0 = lengthToFloat a.wholeNorm := by
  rw [zero_eq_lengthToFloat, squaredNorm_eq_lengthToFloat (by omega), Nat.zero_add]

private theorem squaredNorm_cons (start : Float) (key : List Char) (n : UInt32) (a : GramCounts) :
    squaredNorm start ((key, n) :: a) = a.squaredNorm (start + n.toFloat * n.toFloat) := rfl

/-- Starting at negative zero makes a difference only if nothing is added. -/
theorem squaredNorm_neg_zero {a : GramCounts} (hne : a ≠ []) (h : a.wholeNorm ≤ 2 ^ 53) :
    a.squaredNorm (-0.0) = lengthToFloat a.wholeNorm := by
  obtain ⟨⟨key, n⟩, rest, rfl⟩ := List.exists_cons_of_ne_nil hne
  have hsplit : wholeNorm ((key, n) :: rest) = n.toNat * n.toNat + wholeNorm rest := rfl
  rw [hsplit] at h ⊢
  rw [squaredNorm_cons, toFloat_mul_toFloat (by omega), neg_zero_add_lengthToFloat (by omega),
    squaredNorm_eq_lengthToFloat h]

theorem valueOf?_squaredNorm_neg_zero {a : GramCounts} (h : a.wholeNorm ≤ 2 ^ 53) :
    valueOf? (a.squaredNorm (-0.0)) = some (a.wholeNorm : ℚ) := by
  rcases eq_or_ne a [] with rfl | hne
  · rfl
  · rw [squaredNorm_neg_zero hne h, valueOf?_lengthToFloat h]

/-- The cosine made of the whole numbers, no side being looked up in the other. -/
def wholeCosine (a b : GramCounts) : Float :=
  cosineOfSums a.isEmpty b.isEmpty (lengthToFloat (a.wholeDot b)) (lengthToFloat a.wholeNorm) (lengthToFloat b.wholeNorm)

private theorem cosine_sumsInto {small large : GramCounts} (hdot : small.wholeDot large ≤ 2 ^ 53)
    (hsmall : small.wholeNorm ≤ 2 ^ 53) (hlarge : large.wholeNorm ≤ 2 ^ 53) :
    (small.sumsInto large).cosine = small.wholeCosine large := by
  rcases eq_or_ne large [] with rfl | hne
  · cases small <;> rfl
  · rw [CosineSums.cosine, sumsInto, dot_eq_lengthToFloat hdot, squaredNorm_zero hsmall,
      squaredNorm_neg_zero hne hlarge, wholeCosine]

theorem wholeCosine_comm {a b : GramCounts} (ha : a.Pairwise (·.1 ≠ ·.1)) (hb : b.Pairwise (·.1 ≠ ·.1)) :
    a.wholeCosine b = b.wholeCosine a := by
  rw [wholeCosine, cosineOfSums_comm, wholeDot_comm ha hb]
  rfl

/-- The cosine does not depend on which side is looked up in the other, as long as its sums are exact. -/
theorem cosine_eq_wholeCosine {a b : GramCounts} (ha : a.Pairwise (·.1 ≠ ·.1)) (hb : b.Pairwise (·.1 ≠ ·.1))
    (hdot : a.wholeDot b ≤ 2 ^ 53) (hnormA : a.wholeNorm ≤ 2 ^ 53) (hnormB : b.wholeNorm ≤ 2 ^ 53) :
    a.cosine b = a.wholeCosine b := by
  rw [cosine_eq_sums, sums]
  by_cases hle : a.length ≤ b.length
  · rw [if_pos hle]
    exact cosine_sumsInto hdot hnormA hnormB
  · rw [if_neg hle, wholeCosine_comm ha hb]
    exact cosine_sumsInto (wholeDot_comm ha hb ▸ hdot) hnormB hnormA

/-! ### Any order -/

/-- Grams that are listed once each and whose counts add up to so little that their sums are exact.  The square of the
bound is the last one that is at most 2^53. -/
structure Moderate (a : GramCounts) : Prop where
  distinct : a.Pairwise (·.1 ≠ ·.1)
  total_le : a.total ≤ 94906265

theorem Moderate.perm {a a' : GramCounts} (h : a.Moderate) (hperm : a'.Perm a) : a'.Moderate where
  distinct := hperm.symm.pairwise h.distinct Ne.symm
  total_le := total_perm hperm ▸ h.total_le

theorem Moderate.of_prefix {before a : GramCounts} (h : a.Moderate) (hbefore : before <+: a) : before.Moderate where
  distinct := h.distinct.sublist hbefore.sublist
  total_le := (total_prefix_le hbefore).trans h.total_le

theorem Moderate.wholeDot_le {a b : GramCounts} (ha : a.Moderate) (hb : b.Moderate) : a.wholeDot b ≤ 2 ^ 53 :=
  (GramCounts.wholeDot_le a b).trans ((Nat.mul_le_mul ha.total_le hb.total_le).trans (by decide))

theorem Moderate.wholeNorm_le {a : GramCounts} (h : a.Moderate) : a.wholeNorm ≤ 2 ^ 53 :=
  (GramCounts.wholeNorm_le a).trans ((Nat.mul_le_mul h.total_le h.total_le).trans (by decide))

/-- Every sum of the cosine, after every entry that it has passed, is the whole number that it stands for, and this one
is at most 2^53. -/
structure ExactSums (small large : GramCounts) : Prop where
  dot : ∀ before : GramCounts, before <+: small →
    before.wholeDot large ≤ 2 ^ 53 ∧ valueOf? (before.dot large) = some (before.wholeDot large : ℚ)
  norm_small : ∀ before : GramCounts, before <+: small →
    before.wholeNorm ≤ 2 ^ 53 ∧ valueOf? (before.squaredNorm 0.0) = some (before.wholeNorm : ℚ)
  norm_large : ∀ before : GramCounts, before <+: large →
    before.wholeNorm ≤ 2 ^ 53 ∧ valueOf? (before.squaredNorm (-0.0)) = some (before.wholeNorm : ℚ)

theorem Moderate.exactSums {a b : GramCounts} (ha : a.Moderate) (hb : b.Moderate) : ExactSums a b where
  dot := by
    intro before hbefore
    have hle := (ha.of_prefix hbefore).wholeDot_le hb
    rw [dot_eq_lengthToFloat hle]
    exact ⟨hle, valueOf?_lengthToFloat hle⟩
  norm_small := by
    intro before hbefore
    have hle := (ha.of_prefix hbefore).wholeNorm_le
    rw [squaredNorm_zero hle]
    exact ⟨hle, valueOf?_lengthToFloat hle⟩
  norm_large := by
    intro before hbefore
    have hle := (hb.of_prefix hbefore).wholeNorm_le
    exact ⟨hle, valueOf?_squaredNorm_neg_zero hle⟩

theorem wholeCosine_perm {a a' b b' : GramCounts} (hb : b.Moderate) (hpa : a.Perm a') (hpb : b.Perm b') :
    a.wholeCosine b = a'.wholeCosine b' := by
  rw [wholeCosine, wholeCosine, wholeDot_perm hb.distinct hpa hpb, wholeNorm_perm hpa, wholeNorm_perm hpb,
    hpa.isEmpty_eq, hpb.isEmpty_eq]

theorem Moderate.cosine_eq {a b : GramCounts} (ha : a.Moderate) (hb : b.Moderate) : a.cosine b = a.wholeCosine b :=
  cosine_eq_wholeCosine ha.distinct hb.distinct (ha.wholeDot_le hb) ha.wholeNorm_le hb.wholeNorm_le

end GramCounts

theorem total_gramCounts_eq_sum (width : Nat) (sequence : List Token) :
    let grams := (windows width sequence).map gram
    (gramCounts width sequence).total = (grams.dedup.map fun g => (UInt32.ofNat (grams.count g)).toNat).sum := by
  intro grams
  rw [GramCounts.total_perm (perm_gramCounts width sequence), GramCounts.total, List.map_map]
  rfl

theorem total_gramCounts_le (width : Nat) (sequence : List Token) :
    (gramCounts width sequence).total ≤ sequence.length := by
  let grams := (windows width sequence).map gram
  have hcount : ∀ g, (UInt32.ofNat (grams.count g)).toNat ≤ grams.count g := fun g => Nat.mod_le _ _
  calc (gramCounts width sequence).total
    _ = (grams.dedup.map fun g => (UInt32.ofNat (grams.count g)).toNat).sum := total_gramCounts_eq_sum width sequence
    _ ≤ (grams.dedup.map grams.count).sum := List.sum_le_sum fun g _ => hcount g
    _ = grams.length := by
      convert List.sum_map_count_dedup_eq_length grams
      rfl
    _ ≤ sequence.length := by simpa [grams] using length_windows_le width sequence

theorem moderate_gramCounts {sequence : List Token} (h : sequence.length ≤ 94906265) (width : Nat) :
    (gramCounts width sequence).Moderate :=
  ⟨GramCounts.distinct_toList _, (total_gramCounts_le width sequence).trans h⟩

/-- For sequences of moderate length the grams of a width may be listed, and are summed, in any order: every sum on the
way is a whole number in the range of exact doubles, whichever side is looked up in the other, and the cosine is the same
double. -/
theorem cosine_of_any_order {width : Nat} (hwidth : width ≠ 0) {s t : List Token} (hs : s.length ≤ 94906265)
    (ht : t.length ≤ 94906265) :
    gramsOf s width = .ok (gramCounts width s) ∧ gramsOf t width = .ok (gramCounts width t) ∧
      ∀ a b : GramCounts, a.Perm (gramCounts width s) → b.Perm (gramCounts width t) →
        a.ExactSums b ∧ b.ExactSums a ∧ a.cosine b = (gramCounts width s).cosine (gramCounts width t) := by
  refine ⟨if_neg hwidth, if_neg hwidth, fun a b hpa hpb => ?_⟩
  have hms := moderate_gramCounts hs width
  have hmt := moderate_gramCounts ht width
  have ha := hms.perm hpa
  have hb := hmt.perm hpb
  refine ⟨ha.exactSums hb, hb.exactSums ha, ?_⟩
  rw [ha.cosine_eq hb, hms.cosine_eq hmt, GramCounts.wholeCosine_perm hb hpa hpb]

/-- A run of two tokens that comes twice against one that comes once, their grams listed backwards. -/
theorem cosine_of_two_orders :
    let x : Token := ['x']
    let y : Token := ['y']
    let z : Token := ['z']
    GramCounts.cosine [(['y', ' ', 'x'], 1), (['x', ' ', 'y'], 2)] [(['y', ' ', 'z'], 1), (['x', ' ', 'y'], 1)] =
      (gramCounts 2 [x, y, x, y]).cosine (gramCounts 2 [x, y, z]) := by
  intro x y z
  have hs : gramCounts 2 [x, y, x, y] = [(['x', ' ', 'y'], 2), (['y', ' ', 'x'], 1)] := by decide +kernel
  have ht : gramCounts 2 [x, y, z] = [(['x', ' ', 'y'], 1), (['y', ' ', 'z'], 1)] := by decide +kernel
  have h := (@cosine_of_any_order 2 (by decide) [x, y, x, y] [x, y, z] (by decide) (by decide)).2.2
  rw [hs, ht] at h ⊢
  exact (h _ _ (.swap ..) (.swap ..)).2.2

end Likeness
