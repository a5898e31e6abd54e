import Likeness.Proofs.Rankings

/-!
# The order in which files are listed

A ranking does not depend on the order in which its files are listed, as far as a pair has no sides.  Listing them in
another order exchanges the sides of some pairs.

* `perm_map_pairsOf`: what does not tell the sides of a pair apart has the same values for the pairs of a permuted list.
* `AreReports.map_unordered_pairs`: the scores of files of moderate length are those of the files, whatever the run.
* `Ranking.IsOf.total_map_eq`: scores that are in the order of a ranking are the same list if they are the same multiset.
* `rank_perm` is about two runs, one of them on a permuted list.
-/

namespace Likeness

theorem perm_map_pairsOf {α β : Type} {f : α × α → β} {xs ys : List α} (h : xs.Perm ys)
    (hf : ∀ x ∈ xs, ∀ y ∈ xs, f (x, y) = f (y, x)) : ((pairsOf xs).map f).Perm ((pairsOf ys).map f) := by
  induction h with
  | nil => exact .refl _
  | cons x h ih =>
    have hrest := ih fun y hy z hz => hf y (List.mem_cons_of_mem x hy) z (List.mem_cons_of_mem x hz)
    rw [pairsOf, pairsOf, List.map_append, List.map_append]
    exact (((h.map (x, ·)).map f)).append hrest
  | swap x y l =>
    -- only the pair of these two changes its sides
    have hsame : f (y, x) = f (x, y) := hf y List.mem_cons_self x (List.mem_cons_of_mem y List.mem_cons_self)
    simp only [pairsOf, List.map_append, List.map_cons, List.cons_append, hsame]
    exact (List.perm_append_comm_assoc _ _ _).cons _
  | trans h₁ _ ih₁ ih₂ =>
    exact (ih₁ hf).trans (ih₂ fun x hx y hy => hf x (h₁.mem_iff.2 hx) y (h₁.mem_iff.2 hy))

/-- The two files of a pair, without an order, and their score. -/
def Pair.unordered (x : Pair) : Sym2 Path × Float :=
  (s(x.a, x.b), x.comparison.total)

section

variable {weights : Weights} {files files' : List Path} {source : Path → List Char} {score : Path → Path → Float}
  {orders : Nat → Nat → GramOrders} {report : Reports files} {report' : Reports files'} {threshold : Float}

/-- Every two sources have a score. -/
theorem exists_similarity_eq (hweights : ∀ aspect, ¬ Unusable (weights.get aspect)) (source : Path → List Char) :
    ∃ score : Path → Path → Float, ∀ p q, similarity weights (source p) (source q) = .ok (score p q) := by
  have hscore : ∀ p q, ∃ x, similarity weights (source p) (source q) = .ok x := by
    intro p q
    obtain ⟨c, hc⟩ := exists_compareAnalysesBy_eq .asListed (Analysis.sameSlots_ofSource (source p) (source q))
      (Weights.fault?_eq_none_iff.2 hweights)
    have hsources : compareSources weights (source p) (source q) = .ok c := hc
    rw [similarity, hsources]
    exact ⟨_, rfl⟩
  choose score hscore using hscore
  exact ⟨score, hscore⟩

/-- Two sources of moderate length have the same score from either side. -/
theorem similarity_comm (weights : Weights) {a b : List Char} (ha : (Analysis.ofSource a).tokenCount ≤ 94906265)
    (hb : (Analysis.ofSource b).tokenCount ≤ 94906265) : similarity weights b a = similarity weights a b := by
  have hcomm : compareSources weights b a = (compareSources weights a b).map Comparison.exchange :=
    compareAnalysesBy_comm .asListed .asListed weights (Analysis.sameSlots_ofSource a b) (Analysis.isModerate_ofSource ha)
      (Analysis.isModerate_ofSource hb)
  rw [similarity, similarity, hcomm]
  cases compareSources weights a b <;> rfl

/-- The scores of files of moderate length do not depend on the run. -/
theorem AreReports.map_unordered_pairs (h : AreReports orders weights source report)
    (hlength : ∀ p ∈ files, (Analysis.ofSource (source p)).tokenCount ≤ 94906265)
    (hscore : ∀ p q, similarity weights (source p) (source q) = .ok (score p q)) :
    report.pairs.map Pair.unordered = (pairsOf files).map fun pq => (s(pq.1, pq.2), score pq.1 pq.2) := by
  rw [Reports.pairs, pairsOf_eq_map_finRange files, List.map_map, List.map_map]
  refine List.map_congr_left fun ij hij => Prod.ext rfl ?_
  have hreport : compareSources weights (source files[ij.1]) (source files[ij.2]) = .ok (report ij.1 ij.2) :=
    h.eq_of_moderate (lt_of_mem_pairsOf_finRange hij) (hlength _ (List.getElem_mem _)) (hlength _ (List.getElem_mem _))
      .asListed
  have htotal := hscore files[ij.1] files[ij.2]
  rw [similarity, hreport] at htotal
  exact Except.ok.inj htotal

theorem map_unordered_ranked (threshold : Float) (pairs : List Pair) :
    ((ranked threshold pairs).map Pair.unordered).Perm
      ((pairs.map Pair.unordered).filter fun x => x.2 >= threshold) := by
  rw [List.filter_map]
  exact (List.mergeSort_perm _ _).map _

/-- Scores in the order of a ranking are fixed by how often each of them occurs. -/
theorem Ranking.IsOf.total_map_eq {r r' : Ranking} (h : r.IsOf files report threshold)
    (h' : r'.IsOf files' report' threshold) (hperm : (r.pairs.map Pair.unordered).Perm (r'.pairs.map Pair.unordered)) :
    r.pairs.map (·.comparison.total) = r'.pairs.map (·.comparison.total) := by
  have hsorted : ∀ {pairs : List Pair}, pairs.Pairwise Pair.Precedes →
      (pairs.map (·.comparison.total)).Pairwise fun x y => y < x ∨ x = y := fun hordered =>
    List.pairwise_map.2 (hordered.imp fun hprecedes => hprecedes.imp_right And.left)
  have htotals : (r.pairs.map (·.comparison.total)).Perm (r'.pairs.map (·.comparison.total)) := by
    have := hperm.map Prod.snd
    rwa [List.map_map, List.map_map] at this
  refine List.Perm.eq_of_pairwise (fun x y _ _ hxy hyx => ?_) (hsorted h.ordered) (hsorted h'.ordered) htotals
  rcases hxy with hlt | heq
  · rcases hyx with hlt' | heq
    · exact absurd hlt' (float_lt_asymm hlt)
    · exact heq.symm
  · exact heq

end

/-- Listing files of moderate length in another order gives the same unordered pairs with the same scores, the same scores
down the ranking, and the same numbers, in whichever orders the two runs visit grams. -/
theorem rank_perm (orders orders' : Nat → Nat → GramOrders) {disk : Disk} {weights : Weights}
    (hweights : ∀ aspect, ¬ Unusable (weights.get aspect)) {files files' : List Path} (hperm : files'.Perm files)
    {source : Path → List Char} (hread : ∀ p ∈ files, disk.readSource p = .ok (source p))
    (hlength : ∀ p ∈ files, (Analysis.ofSource (source p)).tokenCount ≤ 94906265) (threshold : Float) :
    ∃ r r' : Ranking, rankBy orders disk weights threshold files = .ok r ∧
      rankBy orders' disk weights threshold files' = .ok r' ∧
      (r.pairs.map Pair.unordered).Perm (r'.pairs.map Pair.unordered) ∧
      r.pairs.map (·.comparison.total) = r'.pairs.map (·.comparison.total) ∧
      r.filesAnalyzed = r'.filesAnalyzed ∧ r.pairsCompared = r'.pairsCompared := by
  obtain ⟨score, hscore⟩ := exists_similarity_eq hweights source
  obtain ⟨report, hreport⟩ := exists_areReports orders hweights source files
  obtain ⟨report', hreport'⟩ := exists_areReports orders' hweights source files'
  have hread' : ∀ p ∈ files', disk.readSource p = .ok (source p) := fun p hp => hread p (hperm.mem_iff.1 hp)
  have hlength' : ∀ p ∈ files', (Analysis.ofSource (source p)).tokenCount ≤ 94906265 := fun p hp =>
    hlength p (hperm.mem_iff.1 hp)
  have hsides : ∀ p ∈ files, ∀ q ∈ files, (s(p, q), score p q) = (s(q, p), score q p) := by
    intro p hp q hq
    have hcomm := similarity_comm weights (hlength q hq) (hlength p hp)
    rw [hscore p q, hscore q p] at hcomm
    exact Prod.ext Sym2.eq_swap (Except.ok.inj hcomm)
  have hpairs : (report.pairs.map Pair.unordered).Perm (report'.pairs.map Pair.unordered) := by
    rw [hreport.map_unordered_pairs hlength hscore, hreport'.map_unordered_pairs hlength' hscore]
    exact perm_map_pairsOf hperm.symm hsides
  have hunordered := ((map_unordered_ranked threshold _).trans (hpairs.filter _)).trans
    (map_unordered_ranked threshold _).symm
  have hlengths : report.pairs.length = report'.pairs.length := by
    rw [report.length_pairs, report'.length_pairs, hperm.length_eq]
  exact ⟨_, _, rankBy_eq hread hreport threshold, rankBy_eq hread' hreport' threshold, hunordered,
    (hreport.isOf_ranking threshold).total_map_eq (hreport'.isOf_ranking threshold) hunordered, hperm.length_eq.symm,
    hlengths⟩

/-- Three files listed backwards, their grams being visited backwards too. -/
theorem ranking_of_files_listed_backwards :
    let disk : Disk := ⟨fun p => .ok (if p = .ofString "c" then [] else [120, 61, 49]), fun _ => true,
      fun _ => .error .notAFolder⟩
    ∃ r r' : Ranking, rank disk .default 0.5 [.ofString "a", .ofString "b", .ofString "c"] = .ok r ∧
      rankBy (fun _ _ => .leftBackwards) disk .default 0.5 [.ofString "c", .ofString "b", .ofString "a"] = .ok r' ∧
      r.pairs.map (·.comparison.total) = r'.pairs.map (·.comparison.total) := by
  intro disk
  let files := [Path.ofString "a", .ofString "b", .ofString "c"]
  let source : Path → List Char := fun p => if p = .ofString "c" then [] else ['x', '=', '1']
  have hread : ∀ p ∈ files, disk.readSource p = .ok (source p) := by decide +kernel
  have hlength : ∀ p ∈ files, (Analysis.ofSource (source p)).tokenCount ≤ 94906265 := by decide +kernel
  obtain ⟨r, r', hrank, hrank', _, htotals, _⟩ := rank_perm (fun _ _ => .asListed) (fun _ _ => .leftBackwards)
    Weights.not_unusable_default (List.reverse_perm files) hread hlength 0.5
  exact ⟨r, r', hrank, hrank', htotals⟩

end Likeness
