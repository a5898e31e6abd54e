import Likeness.Proofs.Rankings

/-!
# Thresholds of a ranking

A higher threshold keeps the beginning of a ranking and cuts the rest.

* (sorting) as sorting is stable, a list may be filtered before it is sorted or after (`filter_mergeSort`).
* (cutting) a filter keeps the beginning of a list in which nothing that passes stands after something that does not
  (`filter_append_filter_not`).  A ranking is such a list for every threshold, as its scores descend.
* (runs) two runs on the same files report the same, as long as they visit grams in the same orders or the files are of
  moderate length (`AreReports.pairs_eq`).  `rank_append_cut` is the law for two such runs.
-/

namespace Likeness

section

variable {α : Type} {le : α → α → Bool}

private theorem takeWhile_append_of_neg {q : α → Bool} {before after : List α} (hbefore : ∀ x ∈ before, q x = true)
    (hafter : ∀ x ∈ after, q x = false) : (before ++ after).takeWhile q = before := by
  rw [List.takeWhile_append_of_pos hbefore]
  cases after with
  | nil => simp
  | cons x after => simp [hafter x]

/-- Sorting puts the head of a list between what it may not stand before and what it may. -/
private theorem exists_mergeSort_cons (trans : ∀ a b c, le a b = true → le b c = true → le a c = true)
    (total : ∀ a b, (le a b || le b a) = true) (x : α) (xs : List α) :
    ∃ before after, (x :: xs).mergeSort le = before ++ x :: after ∧ xs.mergeSort le = before ++ after ∧
      (∀ y ∈ before, (!le x y) = true) ∧ ∀ y ∈ after, (!le x y) = false := by
  obtain ⟨before, after, hcons, hrest, hbefore⟩ := List.mergeSort_cons trans total x xs
  refine ⟨before, after, hcons, hrest, hbefore, fun y hy => ?_⟩
  have hsorted := List.pairwise_mergeSort trans total (x :: xs)
  rw [hcons, List.pairwise_append, List.pairwise_cons] at hsorted
  rw [hsorted.2.1.1 y hy, Bool.not_true]

/-- Filtering a list and sorting it can be exchanged, whatever is equal in the order. -/
theorem filter_mergeSort (trans : ∀ a b c, le a b = true → le b c = true → le a c = true)
    (total : ∀ a b, (le a b || le b a) = true) (p : α → Bool) (xs : List α) :
    (xs.mergeSort le).filter p = (xs.filter p).mergeSort le := by
  induction xs with
  | nil => simp
  | cons x xs ih =>
    obtain ⟨before, after, hcons, hrest, hbefore, hafter⟩ := exists_mergeSort_cons trans total x xs
    by_cases hx : p x = true
    · obtain ⟨before', after', hcons', hrest', hbefore', hafter'⟩ := exists_mergeSort_cons trans total x (xs.filter p)
      -- `x` goes to the same place: after all that it may not stand before
      have hsplit : before.filter p ++ after.filter p = before' ++ after' := by
        rw [← List.filter_append, ← hrest, ih, hrest']
      have hplace : before.filter p = before' := by
        rw [← takeWhile_append_of_neg hbefore' hafter', ← hsplit]
        exact (takeWhile_append_of_neg (fun y hy => hbefore y (List.mem_filter.1 hy).1)
          fun y hy => hafter y (List.mem_filter.1 hy).1).symm
      have hafter_eq : after.filter p = after' := by
        rwa [hplace, List.append_cancel_left_eq] at hsplit
      rw [hcons, List.filter_append, List.filter_cons_of_pos hx, List.filter_cons_of_pos hx, hcons', hplace, hafter_eq]
    · rw [hcons, List.filter_append, List.filter_cons_of_neg hx, List.filter_cons_of_neg hx, ← ih, hrest,
        List.filter_append]

/-- A filter keeps the beginning of a list if nothing that passes stands after something that does not. -/
theorem filter_append_filter_not {p : α → Bool} {xs : List α} (h : xs.Pairwise fun x y => p y = true → p x = true) :
    xs.filter p ++ xs.filter (fun x => !p x) = xs := by
  induction xs with
  | nil => rfl
  | cons x xs ih =>
    obtain ⟨hx, hxs⟩ := List.pairwise_cons.1 h
    cases hp : p x with
    | true => simpa [hp] using ih hxs
    | false =>
      have hnone : ∀ y ∈ xs, p y = false := fun y hy => Bool.eq_false_iff.2 fun hy' => by
        rw [hx y hy hy'] at hp
        cases hp
      have hfilter : xs.filter p = [] := List.filter_eq_nil_iff.2 fun y hy => by simp [hnone y hy]
      have hall : xs.filter (fun y => !p y) = xs := List.filter_eq_self.2 fun y hy => by simp [hnone y hy]
      simp [hp, hfilter, hall]

end

/-- Whether a pair reaches a threshold. -/
def Pair.reaches (threshold : Float) (x : Pair) : Bool :=
  threshold ≤ x.comparison.total

section

variable {weights : Weights} {low high : Float} {pairs : List Pair}

/-- What reaches the higher threshold can be picked from what reaches the lower one. -/
theorem filter_ranked (hle : low ≤ high) (pairs : List Pair) :
    (ranked low pairs).filter (Pair.reaches high) = ranked high pairs := by
  rw [ranked, ranked, filter_mergeSort Pair.before_trans Pair.before_total, List.filter_filter]
  congr 1
  refine List.filter_congr fun x _ => ?_
  rw [Bool.eq_iff_iff, Bool.and_eq_true, Pair.reaches, decide_eq_true_iff, decide_eq_true_iff]
  exact ⟨And.left, fun hreach => ⟨hreach, float_le_trans hle hreach⟩⟩

theorem Pair.Precedes.reaches {x y : Pair} (h : x.Precedes y) (hy : y.reaches high = true) : x.reaches high = true := by
  unfold Pair.reaches at hy ⊢
  rw [decide_eq_true_iff] at hy ⊢
  rcases h with hlt | ⟨heq, _⟩
  · exact float_le_trans hy (float_le_of_lt hlt)
  · rwa [heq]

/-- The ranking for a lower threshold goes on where the one for a higher threshold ends. -/
theorem ranked_append_cut (hle : low ≤ high) (h : ∀ x ∈ pairs, x.comparison.IsUnder weights) :
    ranked high pairs ++ (ranked low pairs).filter (fun x => !x.reaches high) = ranked low pairs := by
  rw [← filter_ranked hle]
  exact filter_append_filter_not ((pairwise_ranked low h).imp Pair.Precedes.reaches)

end

/-- Two runs report the same of two files if they visit their grams in the same orders, or if both files are of moderate
length. -/
theorem AreReports.pairs_eq {orders orders' : Nat → Nat → GramOrders} {weights : Weights} {source : Path → List Char}
    {files : List Path} {report report' : Reports files} (h : AreReports orders weights source report)
    (h' : AreReports orders' weights source report')
    (hsame : ∀ i j : Fin files.length, i < j → orders' i j = orders i j ∨ ModerateAt source i ∧ ModerateAt source j) :
    report'.pairs = report.pairs := by
  refine Reports.pairs_congr fun i j hlt => Except.ok.inj ((h' i j hlt).symm.trans ?_)
  rcases hsame i j hlt with horders | ⟨hi, hj⟩
  · rw [horders]
    exact h i j hlt
  · exact h.eq_of_moderate hlt hi hj _

/-- Two runs on the same files, which can be read, under weights that can be used.  Both succeed and go through the same
numbers of files and pairs.  If every two files are of moderate length or have their grams visited in the same orders in both
runs, then raising the threshold only cuts the tail of the ranking: the entries that are left are the same in the same order,
and all that is cut is below the threshold. -/
theorem rank_append_cut (orders orders' : Nat → Nat → GramOrders) {disk : Disk} {weights : Weights}
    (hweights : ∀ aspect, ¬ Unusable (weights.get aspect)) {files : List Path} {source : Path → List Char}
    (hread : ∀ p ∈ files, disk.readSource p = .ok (source p)) {low high : Float} (hle : low ≤ high) :
    ∃ r r' : Ranking, rankBy orders disk weights low files = .ok r ∧ rankBy orders' disk weights high files = .ok r' ∧
      r'.filesAnalyzed = r.filesAnalyzed ∧ r'.pairsCompared = r.pairsCompared ∧
      ((∀ i j : Fin files.length, i < j → orders' i j = orders i j ∨ ModerateAt source i ∧ ModerateAt source j) →
        ∃ cut : List Pair, r.pairs = r'.pairs ++ cut ∧ (∀ x ∈ r'.pairs, high ≤ x.comparison.total) ∧
          ∀ x ∈ cut, low ≤ x.comparison.total ∧ x.comparison.total < high) := by
  obtain ⟨report, hreport⟩ := exists_areReports orders hweights source files
  obtain ⟨report', hreport'⟩ := exists_areReports orders' hweights source files
  refine ⟨_, _, rankBy_eq hread hreport low, rankBy_eq hread hreport' high, rfl, ?_, fun hsame => ?_⟩
  · exact report'.length_pairs.trans report.length_pairs.symm
  · have hpairs := (ranked_append_cut hle hreport.isUnder).symm
    rw [Reports.ranking, Reports.ranking, hreport.pairs_eq hreport' hsame]
    refine ⟨_, hpairs, fun x hx => (mem_ranked_iff.1 hx).2, fun x hx => ?_⟩
    obtain ⟨hmem, hcut⟩ := List.mem_filter.1 hx
    have hlow := (mem_ranked_iff.1 hmem).2
    have hbelow : ¬ high ≤ x.comparison.total := by simpa [Pair.reaches] using hcut
    exact ⟨hlow, float_lt_of_not_le (isNaN_of_le hle).2 (isNaN_of_le hlow).2 hbelow⟩

/-- Three files of which only two are alike, with and without a threshold, their grams being visited backwards in one run. -/
theorem rankings_of_two_thresholds :
    let disk : Disk := ⟨fun p => .ok (if p = .ofString "c" then [] else [120, 61, 49]), fun _ => true,
      fun _ => .error .notAFolder⟩
    let files := [Path.ofString "a", .ofString "b", .ofString "c"]
    (0.0 : Float) ≤ 0.5 ∧ ∃ (r r' : Ranking) (cut : List Pair), rank disk .default 0.0 files = .ok r ∧
      rankBy (fun _ _ => .leftBackwards) disk .default 0.5 files = .ok r' ∧ r.pairs = r'.pairs ++ cut ∧
      ∀ x ∈ cut, x.comparison.total < 0.5 := by
  intro disk files
  let source : Path → List Char := fun p => if p = .ofString "c" then [] else ['x', '=', '1']
  have hread : ∀ p ∈ files, disk.readSource p = .ok (source p) := by decide +kernel
  have hlength : ∀ p ∈ files, (Analysis.ofSource (source p)).tokenCount ≤ 94906265 := by decide +kernel
  have hle : (0.0 : Float) ≤ 0.5 := by decide
  obtain ⟨r, r', hrank, hrank', _, _, hcut⟩ := rank_append_cut (fun _ _ => .asListed) (fun _ _ => .leftBackwards)
    Weights.not_unusable_default hread hle
  obtain ⟨cut, hpairs, _, hbelow⟩ := hcut fun i j _ =>
    .inr ⟨hlength _ (List.getElem_mem _), hlength _ (List.getElem_mem _)⟩
  exact ⟨hle, r, r', cut, hrank, hrank', hpairs, fun x hx => (hbelow x hx).2⟩

end Likeness
