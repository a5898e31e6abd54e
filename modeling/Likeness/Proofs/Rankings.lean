import Likeness.Proofs.PathOrder
import Likeness.Proofs.Signs
import Likeness.Proofs.Symmetry

/-!
# Rankings

What a ranking of a list of files holds, and in which order.

* (pairs) `pairsOf` lists every pair of places once, the earlier one first (`coe_pairsOf_finRange`).
* (order) `Pair.Precedes` is the order of a ranking in terms of numbers and paths; the order of the sorting is this one, as
  no two scores of a ranking are different zeros (`Pair.precedes_of_before`).
* (rankings) `Ranking.IsOf` says what the ranking of a list of files is, given the comparison that is reported for every two
  places.  For files in increasing order there is one such list of pairs only (`Ranking.IsOf.pairs_unique`).
* (runs) what a run reports depends on the orders in which it visits grams, if files are very long
  (`AreReports.eq_of_moderate`).  `rank_isOf` is the law for every run.
-/

namespace Likeness

/-! ### Pairs of a list -/

section

variable {α β : Type}

theorem pairsOf_map (f : α → β) (xs : List α) : pairsOf (xs.map f) = (pairsOf xs).map (Prod.map f f) := by
  induction xs with
  | nil => rfl
  | cons x xs ih =>
    rw [List.map_cons, pairsOf, pairsOf, ih, List.map_append, List.map_map, List.map_map]
    rfl

theorem length_pairsOf (xs : List α) : (pairsOf xs).length = xs.length * (xs.length - 1) / 2 := by
  induction xs with
  | nil => simp [pairsOf]
  | cons x xs ih =>
    rw [pairsOf, List.length_append, List.length_map, ih, List.length_cons, Nat.triangle_succ, Nat.add_comm]

theorem mem_of_mem_pairsOf {xs : List α} {pair : α × α} (h : pair ∈ pairsOf xs) : pair.1 ∈ xs ∧ pair.2 ∈ xs := by
  induction xs with
  | nil => cases h
  | cons x xs ih =>
    rcases List.mem_append.1 h with h | h
    · obtain ⟨y, hy, rfl⟩ := List.mem_map.1 h
      exact ⟨List.mem_cons_self, List.mem_cons_of_mem x hy⟩
    · exact (ih h).imp (List.mem_cons_of_mem x) (List.mem_cons_of_mem x)

/-- The pairs of an increasing list are those of which the first element is below the second one. -/
theorem mem_pairsOf_iff [Preorder α] {xs : List α} (h : xs.Pairwise (· < ·)) {a b : α} :
    (a, b) ∈ pairsOf xs ↔ a ∈ xs ∧ b ∈ xs ∧ a < b := by
  induction xs with
  | nil => simp [pairsOf]
  | cons x xs ih =>
    obtain ⟨hx, hxs⟩ := List.pairwise_cons.1 h
    rw [pairsOf, List.mem_append, ih hxs]
    constructor
    · rintro (hmap | ⟨ha, hb, hlt⟩)
      · obtain ⟨y, hy, hpair⟩ := List.mem_map.1 hmap
        cases hpair
        exact ⟨List.mem_cons_self, List.mem_cons_of_mem _ hy, hx _ hy⟩
      · exact ⟨List.mem_cons_of_mem x ha, List.mem_cons_of_mem x hb, hlt⟩
    · rintro ⟨ha, hb, hlt⟩
      rcases List.mem_cons.1 ha with hax | ha'
      · subst hax
        have hb := (List.mem_cons.1 hb).resolve_left (ne_of_gt hlt)
        exact .inl (List.mem_map.2 ⟨b, hb, rfl⟩)
      · rcases List.mem_cons.1 hb with hbx | hb'
        · subst hbx
          exact absurd (hlt.trans (hx a ha')) (lt_irrefl a)
        · exact .inr ⟨ha', hb', hlt⟩

theorem nodup_pairsOf {xs : List α} (h : xs.Nodup) : (pairsOf xs).Nodup := by
  induction xs with
  | nil => exact List.nodup_nil
  | cons x xs ih =>
    obtain ⟨hx, hxs⟩ := List.nodup_cons.1 h
    refine List.nodup_append'.2 ⟨hxs.map (Prod.mk_right_injective x), ih hxs, fun pair hmap hpair => ?_⟩
    obtain ⟨y, _, rfl⟩ := List.mem_map.1 hmap
    exact hx (mem_of_mem_pairsOf hpair).1

theorem coe_pairsOf_finRange (n : Nat) : (pairsOf (List.finRange n) : Multiset (Fin n × Fin n)) =
    (Finset.univ.filter fun ij : Fin n × Fin n => ij.1 < ij.2).val := by
  refine (Multiset.Nodup.ext (Multiset.coe_nodup.2 (nodup_pairsOf (List.nodup_finRange _))) (Finset.nodup _)).2 ?_
  rintro ⟨i, j⟩
  rw [Multiset.mem_coe, mem_pairsOf_iff (List.pairwise_lt_finRange _)]
  simp

theorem lt_of_mem_pairsOf_finRange {n : Nat} {ij : Fin n × Fin n} (h : ij ∈ pairsOf (List.finRange n)) : ij.1 < ij.2 :=
  ((mem_pairsOf_iff (List.pairwise_lt_finRange n)).1 h).2.2

theorem pairsOf_eq_map_finRange (xs : List α) :
    pairsOf xs = (pairsOf (List.finRange xs.length)).map fun ij => (xs[ij.1], xs[ij.2]) := by
  have hget : (List.finRange xs.length).map (fun i => xs[i]) = xs := List.map_getElem_finRange xs
  conv => lhs; rw [← hget, pairsOf_map]
  rfl

end

/-! ### The order of pairs -/

/-- A comparison is one under these weights. -/
def Comparison.IsUnder (weights : Weights) (c : Comparison) : Prop :=
  ∃ orders u v, c.IsOf orders weights u v

namespace Pair

/-- Whether a pair stands before another one: its score is higher, or the scores are the same double and its paths come first
or have the same place. -/
def Precedes (x y : Pair) : Prop :=
  y.comparison.total < x.comparison.total ∨ x.comparison.total = y.comparison.total ∧
    (x.a.compare y.a = .lt ∨ x.a.compare y.a = .eq ∧ x.b.compare y.b ≠ .gt)

/-- The order of a ranking is made of three orders. -/
instance : Std.TransCmp Pair.order := by
  have hkey : Std.TransCmp fun x y : Pair => compare (orderKey y.comparison.total) (orderKey x.comparison.total) :=
    @Std.TransCmp.opposite _ _ (transCmp_comap fun x : Pair => orderKey x.comparison.total)
  have ha : Std.TransCmp fun x y : Pair => x.a.compare y.a := transCmp_comap Pair.a
  have hb : Std.TransCmp fun x y : Pair => x.b.compare y.b := transCmp_comap Pair.b
  exact inferInstanceAs (Std.TransCmp (compareLex (compareLex _ _) _))

theorem before_trans (x y z : Pair) (hxy : x.before y = true) (hyz : y.before z = true) : x.before z = true :=
  @Std.TransCmp.isLE_trans _ order _ _ _ _ hxy hyz

theorem before_total (x y : Pair) : (x.before y || y.before x) = true := by
  unfold before
  rw [@Std.OrientedCmp.eq_swap _ order _ y x]
  cases x.order y <;> rfl

theorem precedes_of_before {weights : Weights} {x y : Pair} (hx : x.comparison.IsUnder weights)
    (hy : y.comparison.IsUnder weights) (hxnum : x.comparison.total.isNaN = false)
    (hynum : y.comparison.total.isNaN = false) (h : x.before y = true) : x.Precedes y := by
  obtain ⟨_, u, v, hxof⟩ := hx
  obtain ⟨_, u', v', hyof⟩ := hy
  unfold before order at h
  rw [Ordering.isLE_then_iff_and] at h
  obtain ⟨hxy, hb⟩ := h
  rw [Ordering.isLE_then_iff_and] at hxy
  obtain ⟨hkey, ha⟩ := hxy
  rcases Int.lt_trichotomy (orderKey y.comparison.total) (orderKey x.comparison.total) with hlt | heq | hgt
  · -- a higher key is that of a higher score: it is not lower, and not the same double
    refine .inl ?_
    by_contra hnot
    have hlow : x.comparison.total < y.comparison.total := by
      by_contra hnot'
      rw [hxof.total_eq hyof hxnum hynum hnot' hnot] at hlt
      exact lt_irrefl _ hlt
    obtain ⟨p, hp, hnonneg, _⟩ := (hxof.inUnit_total hxnum).exists_valueOf?
    obtain ⟨q, hq, _, _⟩ := (hyof.inUnit_total hynum).exists_valueOf?
    exact (orderKey_lt_of_lt hp hq hnonneg ((float_lt_iff hp hq).1 hlow)).not_gt hlt
  · refine .inr ⟨(orderKey_injective heq).symm, ?_⟩
    have hsame : compare (orderKey y.comparison.total) (orderKey x.comparison.total) = .eq := Int.compare_eq_eq.2 heq
    rw [hsame] at ha hb
    cases hcmp : x.a.compare y.a with
    | lt => exact .inl rfl
    | eq =>
      refine .inr ⟨rfl, fun hgt => ?_⟩
      rw [hcmp, hgt] at hb
      simp at hb
    | gt =>
      rw [hcmp] at ha
      simp at ha
  · rw [Int.compare_eq_gt.2 hgt] at hkey
    cases hkey

theorem compare_of_precedes {x y : Pair} (hxy : x.Precedes y) (hyx : y.Precedes x) :
    x.a.compare y.a = .eq ∧ x.b.compare y.b = .eq := by
  rcases hxy with hlt | ⟨htotal, ha⟩
  · rcases hyx with hlt' | ⟨htotal', _⟩
    · exact absurd hlt' (float_lt_asymm hlt)
    · rw [htotal'] at hlt
      exact absurd hlt (float_lt_asymm hlt)
  · rcases hyx with hlt' | ⟨_, ha'⟩
    · rw [htotal] at hlt'
      exact absurd hlt' (float_lt_asymm hlt')
    · rcases ha with ha | ⟨ha, hb⟩
      · -- the first paths are not in this order the other way round
        rw [Std.OrientedCmp.gt_of_lt ha] at ha'
        rcases ha' with h | ⟨h, _⟩ <;> cases h
      · rcases ha' with ha' | ⟨_, hb'⟩
        · rw [Std.OrientedCmp.gt_of_lt ha'] at ha
          cases ha
        · refine ⟨ha, ?_⟩
          cases hcmp : x.b.compare y.b with
          | eq => rfl
          | lt => exact absurd (Std.OrientedCmp.gt_of_lt hcmp) hb'
          | gt => exact absurd hcmp hb

end Pair

/-! ### Rankings -/

theorem mem_ranked_iff {threshold : Float} {pairs : List Pair} {x : Pair} :
    x ∈ ranked threshold pairs ↔ x ∈ pairs ∧ threshold ≤ x.comparison.total := by
  rw [ranked, List.mem_mergeSort, List.mem_filter, decide_eq_true_iff]

theorem pairwise_ranked {weights : Weights} (threshold : Float) {pairs : List Pair}
    (h : ∀ x ∈ pairs, x.comparison.IsUnder weights) : (ranked threshold pairs).Pairwise Pair.Precedes := by
  have hunder : ∀ x ∈ ranked threshold pairs, x.comparison.IsUnder weights ∧ x.comparison.total.isNaN = false := by
    intro x hx
    obtain ⟨hmem, hreach⟩ := mem_ranked_iff.1 hx
    exact ⟨h x hmem, (isNaN_of_le hreach).2⟩
  have hsorted : (ranked threshold pairs).Pairwise fun x y => x.before y = true :=
    List.pairwise_mergeSort Pair.before_trans Pair.before_total _
  refine hsorted.imp_of_mem fun hx hy hbefore => ?_
  exact Pair.precedes_of_before (hunder _ hx).1 (hunder _ hy).1 (hunder _ hx).2 (hunder _ hy).2 hbefore

/-- The comparisons that are reported for every two places of a list of files. -/
abbrev Reports (files : List Path) :=
  Fin files.length → Fin files.length → Comparison

/-- The pair of the files at two places, with what is reported for them. -/
def Reports.pairAt {files : List Path} (report : Reports files) (ij : Fin files.length × Fin files.length) : Pair :=
  ⟨files[ij.1], files[ij.2], report ij.1 ij.2⟩

/-- What the ranking of a list of files is, given the reports: all pairs of places of which the score reaches the threshold,
once each and in order. -/
structure Ranking.IsOf (r : Ranking) (files : List Path) (report : Reports files) (threshold : Float) : Prop where
  filesAnalyzed : r.filesAnalyzed = files.length
  pairsCompared : r.pairsCompared = files.length * (files.length - 1) / 2
  pairs : (r.pairs : Multiset Pair) =
    (Finset.univ.filter fun ij : Fin files.length × Fin files.length =>
      ij.1 < ij.2 ∧ (report ij.1 ij.2).total ≥ threshold).val.map report.pairAt
  ordered : r.pairs.Pairwise Pair.Precedes

section

variable {files : List Path} {report : Reports files} {threshold : Float} {r r' : Ranking}

/-- The pairs of the files at every two places. -/
def Reports.pairs (report : Reports files) : List Pair :=
  (pairsOf (List.finRange files.length)).map report.pairAt

theorem Reports.length_pairs (report : Reports files) : report.pairs.length = files.length * (files.length - 1) / 2 := by
  rw [pairs, List.length_map, length_pairsOf, List.length_finRange]

/-- Only the reports with the earlier place first are of use. -/
theorem Reports.pairs_congr {report report' : Reports files} (h : ∀ i j, i < j → report i j = report' i j) :
    report.pairs = report'.pairs := by
  refine List.map_congr_left fun ij hij => ?_
  rw [Reports.pairAt, h _ _ (lt_of_mem_pairsOf_finRange hij)]
  rfl

/-- The ranking that is made of reports. -/
def Reports.ranking (report : Reports files) (threshold : Float) : Ranking :=
  ⟨ranked threshold report.pairs, files.length, report.pairs.length, 0⟩

theorem Reports.isOf_ranking {weights : Weights} (h : ∀ x ∈ report.pairs, x.comparison.IsUnder weights)
    (threshold : Float) : (report.ranking threshold).IsOf files report threshold where
  filesAnalyzed := rfl
  pairsCompared := report.length_pairs
  pairs := by
    have hperm := List.mergeSort_perm (report.pairs.filter fun p => p.comparison.total >= threshold) Pair.before
    change (Multiset.ofList (List.mergeSort _ _)) = _
    rw [Multiset.coe_eq_coe.2 hperm, ← Multiset.filter_coe, Reports.pairs, ← Multiset.map_coe, coe_pairsOf_finRange,
      Multiset.filter_map]
    congr 1
    rw [← Finset.filter_val, Finset.filter_filter]
    rfl
  ordered := pairwise_ranked threshold h

theorem Ranking.IsOf.exists_places (h : r.IsOf files report threshold) {x : Pair} (hx : x ∈ r.pairs) :
    ∃ i j : Fin files.length, i < j ∧ threshold ≤ (report i j).total ∧ x = report.pairAt (i, j) := by
  rw [← Multiset.mem_coe, h.pairs, Multiset.mem_map] at hx
  obtain ⟨⟨i, j⟩, hij, rfl⟩ := hx
  rw [Finset.mem_val, Finset.mem_filter] at hij
  exact ⟨i, j, hij.2.1, hij.2.2, rfl⟩

theorem Ranking.IsOf.pairs_eq_nil (h : r.IsOf files report threshold) (hnan : threshold.isNaN = true) : r.pairs = [] := by
  refine List.eq_nil_iff_forall_not_mem.2 fun x hx => ?_
  obtain ⟨i, j, _, hle, _⟩ := h.exists_places hx
  rw [(isNaN_of_le hle).1] at hnan
  cases hnan

theorem Ranking.IsOf.compare_paths (h : r.IsOf files report threshold) (hfiles : Path.Increasing files) {x : Pair}
    (hx : x ∈ r.pairs) : x.a.compare x.b = .lt := by
  obtain ⟨i, j, hlt, _, rfl⟩ := h.exists_places hx
  exact List.pairwise_iff_getElem.1 hfiles i j i.isLt j.isLt hlt

/-- No two entries are about the same two files. -/
theorem Ranking.IsOf.nodup_unordered (h : r.IsOf files report threshold) (hfiles : files.Nodup) :
    (r.pairs.map fun x => s(x.a, x.b)).Nodup := by
  rw [← Multiset.coe_nodup, ← Multiset.map_coe, h.pairs, Multiset.map_map]
  refine (Finset.nodup _).map_on ?_
  rintro ⟨i, j⟩ hij ⟨k, l⟩ hkl hsame
  rw [Finset.mem_val, Finset.mem_filter] at hij hkl
  have hlt : i < j := hij.2.1
  have hlt' : k < l := hkl.2.1
  have hinj : ∀ {m n : Fin files.length}, files[m] = files[n] → m = n := fun heq => Fin.ext ((hfiles.getElem_inj_iff).1 heq)
  -- equal the other way round they would be in two orders
  rcases Sym2.eq_iff.1 hsame with ⟨hik, hjl⟩ | ⟨hil, hjk⟩
  · obtain rfl : i = k := hinj hik
    obtain rfl : j = l := hinj hjl
    rfl
  · obtain rfl := hinj hil
    obtain rfl := hinj hjk
    exact absurd hlt' hlt.not_gt

/-- Pairs of different files have one order only. -/
theorem Ranking.IsOf.pairs_unique (h : r.IsOf files report threshold) (h' : r'.IsOf files report threshold)
    (hfiles : Path.Increasing files) : r'.pairs = r.pairs := by
  refine List.Perm.eq_of_pairwise (fun x y hx hy hxy hyx => ?_) h'.ordered h.ordered
    (Multiset.coe_eq_coe.1 (h'.pairs.trans h.pairs.symm))
  obtain ⟨ha, hb⟩ := Pair.compare_of_precedes hxy hyx
  obtain ⟨i, j, _, _, rfl⟩ := h'.exists_places hx
  obtain ⟨k, l, _, _, rfl⟩ := h.exists_places hy
  have hinj : ∀ {m n : Fin files.length}, files[m].compare files[n] = .eq → m = n := fun heq =>
    Fin.ext ((hfiles.nodup.getElem_inj_iff).1 (hfiles.eq_of_compare (List.getElem_mem _) (List.getElem_mem _) heq))
  obtain rfl : i = k := hinj ha
  obtain rfl : j = l := hinj hb
  rfl

end

/-! ### Runs -/

/-- The reports of a run that visits grams in these orders. -/
def AreReports (orders : Nat → Nat → GramOrders) (weights : Weights) (source : Path → List Char) {files : List Path}
    (report : Reports files) : Prop :=
  ∀ i j : Fin files.length, i < j →
    compareSourcesBy (orders i j) weights (source files[i]) (source files[j]) = .ok (report i j)

/-- The file at a place is of moderate length. -/
def ModerateAt (source : Path → List Char) {files : List Path} (i : Fin files.length) : Prop :=
  (Analysis.ofSource (source files[i])).tokenCount ≤ 94906265

/-- What is taken from the file at a place, with the place. -/
def atPlace (f : Path → Path × Analysis) (files : List Path) (i : Fin files.length) : (Path × Analysis) × Nat :=
  (f files[i], i.val)

section

variable {orders orders' : Nat → Nat → GramOrders} {disk : Disk} {weights : Weights} {files : List Path}
  {source : Path → List Char} {report report' : Reports files}

theorem exists_areReports (orders : Nat → Nat → GramOrders) (hweights : ∀ aspect, ¬ Unusable (weights.get aspect))
    (source : Path → List Char) (files : List Path) : ∃ report : Reports files, AreReports orders weights source report := by
  have hcompare : ∀ i j : Fin files.length,
      ∃ c, compareSourcesBy (orders i j) weights (source files[i]) (source files[j]) = .ok c := fun i j =>
    exists_compareAnalysesBy_eq (orders i j) (Analysis.sameSlots_ofSource _ _) (Weights.fault?_eq_none_iff.2 hweights)
  choose report hreport using hcompare
  exact ⟨report, fun i j _ => hreport i j⟩

theorem AreReports.isUnder (h : AreReports orders weights source report) :
    ∀ x ∈ report.pairs, x.comparison.IsUnder weights := by
  intro x hx
  obtain ⟨⟨i, j⟩, hij, rfl⟩ := List.mem_map.1 hx
  exact ⟨_, _, _, compareAnalysesBy_eq_ok_iff.1 (h i j (lt_of_mem_pairsOf_finRange hij))⟩

theorem AreReports.isOf_ranking (h : AreReports orders weights source report) (threshold : Float) :
    (report.ranking threshold).IsOf files report threshold :=
  Reports.isOf_ranking h.isUnder threshold

/-- Files of moderate length have the same report in all orders. -/
theorem AreReports.eq_of_moderate (h : AreReports orders weights source report) {i j : Fin files.length} (hlt : i < j)
    (hi : ModerateAt source i) (hj : ModerateAt source j) (others : GramOrders) :
    compareSourcesBy others weights (source files[i]) (source files[j]) = .ok (report i j) :=
  (compareAnalysesBy_eq (Analysis.isModerate_ofSource hi) (Analysis.isModerate_ofSource hj) others _ weights).trans
    (h i j hlt)

/-- What is compared in a ranking are the files at every two places. -/
theorem pairsOf_zipIdx_map (f : Path → Path × Analysis) (files : List Path) :
    pairsOf (files.map f).zipIdx =
      (pairsOf (List.finRange files.length)).map (Prod.map (atPlace f files) (atPlace f files)) := by
  have hplaces : (files.map f).zipIdx = (List.finRange files.length).map (atPlace f files) :=
    List.ext_getElem (by simp) fun i h h' => by simp [atPlace]
  rw [hplaces, pairsOf_map]

/-- What is taken from a source text that has been read. -/
def analysed (source : Path → List Char) (path : Path) : Path × Analysis :=
  (path, .ofSource (source path))

theorem AreReports.comparePair_eq (h : AreReports orders weights source report) {ij : Fin files.length × Fin files.length}
    (hij : ij ∈ pairsOf (List.finRange files.length)) :
    comparePair orders weights (ij.map (atPlace (analysed source) files) (atPlace (analysed source) files)) =
      .ok (report.pairAt ij) := by
  have hok := h ij.1 ij.2 (lt_of_mem_pairsOf_finRange hij)
  rw [compareSourcesBy] at hok
  rw [Prod.map, atPlace, atPlace, analysed, analysed, comparePair, hok]
  rfl

theorem rankBy_eq (hread : ∀ p ∈ files, disk.readSource p = .ok (source p))
    (hreport : AreReports orders weights source report) (threshold : Float) :
    rankBy orders disk weights threshold files = .ok (report.ranking threshold) := by
  have hanalyses : files.mapM (analyseFile disk) = .ok (files.map (analysed source)) :=
    mapM_eq_ok fun p hp => by rw [analyseFile, hread p hp]; rfl
  have hpairs : (pairsOf (files.map (analysed source)).zipIdx).mapM (comparePair orders weights) = .ok report.pairs := by
    rw [pairsOf_zipIdx_map, List.mapM_map]
    exact mapM_eq_ok fun ij hij => hreport.comparePair_eq hij
  exact bind_eq_ok_iff.2 ⟨_, hanalyses, bind_eq_ok_iff.2 ⟨_, hpairs, rfl⟩⟩

end

/-- Ranking files that can be read, under weights that can be used, in any orders of visiting.  It succeeds and holds every
pair of places that reaches the threshold, once and in order, with the report of the two files, which for files of moderate
length is the same in all orders.  In files in increasing order no two files are paired twice and nothing else is in this
order. -/
theorem rank_isOf (orders : Nat → Nat → GramOrders) {disk : Disk} {weights : Weights}
    (hweights : ∀ aspect, ¬ Unusable (weights.get aspect)) {files : List Path} {source : Path → List Char}
    (hread : ∀ p ∈ files, disk.readSource p = .ok (source p)) (threshold : Float) :
    ∃ (r : Ranking) (report : Reports files), rankBy orders disk weights threshold files = .ok r ∧
      (∀ i j : Fin files.length, i < j →
        compareSourcesBy (orders i j) weights (source files[i]) (source files[j]) = .ok (report i j)) ∧
      (∀ i j : Fin files.length, i < j → ModerateAt source i → ModerateAt source j →
        ∀ others, compareSourcesBy others weights (source files[i]) (source files[j]) = .ok (report i j)) ∧
      r.IsOf files report threshold ∧ (threshold.isNaN = true → r.pairs = []) ∧
      (Path.Increasing files → (∀ x ∈ r.pairs, x.a.compare x.b = .lt) ∧ (r.pairs.map fun x => s(x.a, x.b)).Nodup ∧
        ∀ r' : Ranking, r'.IsOf files report threshold → r'.pairs = r.pairs) := by
  obtain ⟨report, hreport⟩ := exists_areReports orders hweights source files
  have hof := hreport.isOf_ranking threshold
  refine ⟨_, report, rankBy_eq hread hreport threshold, hreport, fun i j hlt hi hj => hreport.eq_of_moderate hlt hi hj, hof,
    hof.pairs_eq_nil, fun hfiles => ?_⟩
  exact ⟨fun x hx => hof.compare_paths hfiles hx, hof.nodup_unordered hfiles.nodup,
    fun r' h' => hof.pairs_unique h' hfiles⟩

/-- Two files that are alike and one that is not, in increasing order, their grams being visited backwards on one side. -/
theorem ranking_of_three_files :
    let disk : Disk := ⟨fun p => .ok (if p = .ofString "c" then [] else [120, 61, 49]), fun _ => true,
      fun _ => .error .notAFolder⟩
    let files := [Path.ofString "a", .ofString "b", .ofString "c"]
    ∃ (r : Ranking) (report : Reports files), rankBy (fun _ _ => .leftBackwards) disk .default 0.5 files = .ok r ∧
      r.IsOf files report 0.5 ∧ ∀ x ∈ r.pairs, x.a.compare x.b = .lt := by
  intro disk files
  have hread : ∀ p ∈ files, disk.readSource p = .ok (if p = .ofString "c" then [] else ['x', '=', '1']) := by
    decide +kernel
  have hfiles : Path.Increasing files := by
    unfold Path.Increasing
    decide +kernel
  obtain ⟨r, report, hrank, _, _, hof, _, hincreasing⟩ :=
    rank_isOf (fun _ _ => .leftBackwards) Weights.not_unusable_default hread 0.5
  exact ⟨r, report, hrank, hof, (hincreasing hfiles).1⟩

end Likeness
