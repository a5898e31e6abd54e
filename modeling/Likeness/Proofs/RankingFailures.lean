import Likeness.Proofs.Rankings

/-!
# When a ranking fails

A ranking fails if a file cannot be read, or if there is something to compare and a weight cannot be used, and never
otherwise.  Files are read at the same time and pairs are compared at the same time, so that it is open which of several
failures is reported.

* (orders) `Collects` says what may come of results that are collected in any order, and `MayRank` what may come of a ranking
  both steps of which are done in any order.  `rankBy` does both from left to right (`mayRank_rankBy`).
* (steps) reading fails with the failure of some file (`Collects.exists_failure`); comparing fails with one and the same
  failure for every pair or for none (`comparePair_of_fault`, `AreReports.comparePair_eq`).
* `rank_fails_iff` puts the steps together, for all orders at once.
-/

namespace Likeness

/-! ### Orders -/

section

variable {α β ε : Type}

/-- What may come of results that are collected in any order: all values in their places, or any one of the failures. -/
inductive Collects (results : List (Except ε α)) : Except ε (List α) → Prop where
  | values (xs : List α) (h : results = xs.map .ok) : Collects results (.ok xs)
  | failure (e : ε) (h : .error e ∈ results) : Collects results (.error e)

/-- Collecting from left to right reports the first failure. -/
theorem collects_mapM (f : α → Except ε β) (xs : List α) : Collects (xs.map f) (xs.mapM f) := by
  induction xs with
  | nil => exact .values [] rfl
  | cons x xs ih =>
    rw [List.mapM_cons, List.map_cons]
    cases hx : f x with
    | error e => exact .failure e List.mem_cons_self
    | ok y =>
      cases hxs : xs.mapM f with
      | error e =>
        rw [hxs] at ih
        cases ih with
        | failure _ h => exact .failure e (List.mem_cons_of_mem _ h)
      | ok ys =>
        rw [hxs] at ih
        cases ih with
        | values _ h => exact .values (y :: ys) (by rw [h, List.map_cons])

variable {f : α → Except ε β} {xs : List α} {r : Except ε (List β)}

theorem Collects.eq_ok {g : α → β} (h : Collects (xs.map f) r) (hf : ∀ x ∈ xs, f x = .ok (g x)) : r = .ok (xs.map g) := by
  have hmap : xs.map f = (xs.map g).map .ok := by
    rw [List.map_map]
    exact List.map_congr_left hf
  cases h with
  | values ys hys =>
    rw [hmap] at hys
    rw [List.map_injective_iff.2 (fun _ _ => Except.ok.inj) hys]
  | failure e he =>
    rw [hmap] at he
    obtain ⟨y, _, hy⟩ := List.mem_map.1 he
    cases hy

/-- If every step fails and there is a step, collecting fails. -/
theorem Collects.eq_error {e : ε} (h : Collects (xs.map f) r) (hf : ∀ x ∈ xs, f x = .error e) (hne : xs ≠ []) :
    r = .error e := by
  obtain ⟨x, rest, rfl⟩ := List.exists_cons_of_ne_nil hne
  cases h with
  | values ys hys =>
    rw [List.map_cons, hf x List.mem_cons_self] at hys
    cases ys <;> cases hys
  | failure e' he =>
    obtain ⟨y, hy, hfail⟩ := List.mem_map.1 he
    rw [hf y hy] at hfail
    cases hfail
    rfl

/-- If some step fails, the failure of some step is reported. -/
theorem Collects.exists_failure (h : Collects (xs.map f) r) (hf : ∃ x ∈ xs, ∃ e, f x = .error e) :
    ∃ x ∈ xs, ∃ e, f x = .error e ∧ r = .error e := by
  cases h with
  | values ys hys =>
    obtain ⟨x, hx, e, hfail⟩ := hf
    have hmem : Except.error e ∈ ys.map Except.ok := hys ▸ List.mem_map.2 ⟨x, hx, hfail⟩
    obtain ⟨y, _, hy⟩ := List.mem_map.1 hmem
    cases hy
  | failure e he =>
    obtain ⟨x, hx, hfail⟩ := List.mem_map.1 he
    exact ⟨x, hx, e, hfail, rfl⟩

end

/-- What may come of a ranking if the files are read in any order, and the pairs are compared in any order once all files
have been read. -/
def MayRank (orders : Nat → Nat → GramOrders) (disk : Disk) (weights : Weights) (threshold : Float) (files : List Path)
    (result : Except Failure Ranking) : Prop :=
  ∃ analysed, Collects (files.map (analyseFile disk)) analysed ∧
    match analysed with
    | .error failure => result = .error failure
    | .ok analyses => ∃ compared, Collects ((pairsOf analyses.zipIdx).map (comparePair orders weights)) compared ∧
        result = compared.map fun pairs => ⟨ranked threshold pairs, files.length, pairs.length, 0⟩

section

variable {orders : Nat → Nat → GramOrders} {disk : Disk} {weights : Weights} {threshold : Float} {files : List Path}
  {result : Except Failure Ranking}

theorem mayRank_rankBy (orders : Nat → Nat → GramOrders) (disk : Disk) (weights : Weights) (threshold : Float)
    (files : List Path) : MayRank orders disk weights threshold files (rankBy orders disk weights threshold files) := by
  refine ⟨_, collects_mapM _ _, ?_⟩
  unfold rankBy
  cases files.mapM (analyseFile disk) with
  | error failure => rfl
  | ok analyses =>
    refine ⟨_, collects_mapM _ _, ?_⟩
    dsimp only [bind, Except.bind]
    cases (pairsOf analyses.zipIdx).mapM (comparePair orders weights) <;> rfl

/-! ### Steps -/

/-- A file that cannot be read, whatever its bytes would mean. -/
def Unreadable (disk : Disk) (path : Path) : Prop :=
  ∃ cause, disk.bytes path = .error cause

theorem analyseFile_of_error {path : Path} {cause : IoCause} (h : disk.bytes path = .error cause) :
    analyseFile disk path = .error (.io cause path) := by
  rw [analyseFile, Disk.readSource, h]
  rfl

/-- The texts that files with these bytes hold.  A file that is not UTF-8 holds the text that it is repaired to. -/
def repaired (bytes : Path → List UInt8) (path : Path) : List Char :=
  Utf8.repair (bytes path)

theorem analyseFile_of_ok {bytes : Path → List UInt8} {path : Path} (h : disk.bytes path = .ok (bytes path)) :
    analyseFile disk path = .ok (analysed (repaired bytes) path) := by
  rw [analyseFile, Disk.readSource, h]
  rfl

/-- Only a file that cannot be read makes its analysis fail. -/
theorem analyseFile_eq_error_iff {path : Path} {failure : Failure} :
    analyseFile disk path = .error failure ↔ ∃ cause, disk.bytes path = .error cause ∧ failure = .io cause path := by
  cases hbytes : disk.bytes path with
  | error cause =>
    rw [analyseFile_of_error hbytes, Except.error.injEq]
    constructor
    · rintro rfl
      exact ⟨cause, rfl, rfl⟩
    · rintro ⟨_, ⟨⟩, rfl⟩
      rfl
  | ok bytes =>
    rw [@analyseFile_of_ok disk (fun _ => bytes) path hbytes]
    exact iff_of_false (by rintro ⟨⟩) (by rintro ⟨_, ⟨⟩, _⟩)

theorem comparePair_of_fault {fault : WeightFault} (h : weights.fault? = some fault)
    (pair : ((Path × Analysis) × Nat) × ((Path × Analysis) × Nat)) :
    comparePair orders weights pair = .error (.weights fault) := by
  rw [comparePair, compareAnalysesBy_of_fault _ h]
  rfl

/-! ### Rankings -/

/-- Reading fails for some file, and that is all that happens. -/
theorem MayRank.exists_io (h : MayRank orders disk weights threshold files result) (hbad : ∃ path ∈ files, Unreadable disk path) :
    ∃ path ∈ files, ∃ cause, disk.bytes path = .error cause ∧ result = .error (.io cause path) := by
  obtain ⟨read, hread, hresult⟩ := h
  obtain ⟨path, hpath, cause, hcause⟩ := hbad
  obtain ⟨path', hpath', failure, hfail, rfl⟩ := hread.exists_failure ⟨path, hpath, _, analyseFile_of_error hcause⟩
  obtain ⟨cause', hcause', rfl⟩ := analyseFile_eq_error_iff.1 hfail
  exact ⟨path', hpath', cause', hcause', hresult⟩

/-- Once all files have been read, what is left is to compare the files at every two places. -/
theorem MayRank.exists_compared {bytes : Path → List UInt8} (h : MayRank orders disk weights threshold files result)
    (hread : ∀ path ∈ files, disk.bytes path = .ok (bytes path)) :
    ∃ compared, Collects ((pairsOf (List.finRange files.length)).map (comparePair orders weights ∘
        Prod.map (atPlace (analysed (repaired bytes)) files) (atPlace (analysed (repaired bytes)) files))) compared ∧
      result = compared.map fun pairs => ⟨ranked threshold pairs, files.length, pairs.length, 0⟩ := by
  obtain ⟨read, hcollects, hresult⟩ := h
  rw [hcollects.eq_ok fun path hpath => analyseFile_of_ok (hread path hpath)] at hresult
  dsimp only at hresult
  rwa [pairsOf_zipIdx_map, List.map_map] at hresult

theorem pairsOf_eq_nil_iff {α : Type} {xs : List α} : pairsOf xs = [] ↔ xs.length < 2 := by
  match xs with
  | [] => simp [pairsOf]
  | [x] => simp [pairsOf]
  | x :: y :: xs => simp [pairsOf]

/-- A ranking of all pairs of files, each with the comparison of the texts that the files hold. -/
def Ranking.IsFull (r : Ranking) (orders : Nat → Nat → GramOrders) (disk : Disk) (weights : Weights) (threshold : Float)
    (files : List Path) : Prop :=
  ∃ (bytes : Path → List UInt8) (report : Reports files),
    (∀ path ∈ files, disk.bytes path = .ok (bytes path)) ∧
      AreReports orders weights (repaired bytes) report ∧ r.IsOf files report threshold

/-- There are reports of every two places, if the weights can be used or there are no two places. -/
private theorem exists_areReports_of_pairs (orders : Nat → Nat → GramOrders) (source : Path → List Char)
    (files : List Path) (h : weights.fault? = none ∨ files.length < 2) :
    ∃ report : Reports files, AreReports orders weights source report := by
  rcases h with hnone | hfew
  · exact exists_areReports orders (Weights.fault?_eq_none_iff.1 hnone) source files
  · -- any reports will do
    obtain ⟨report, _⟩ := exists_areReports orders Weights.not_unusable_default source files
    exact ⟨report, fun i j hlt => by omega⟩

theorem exists_bytes (hread : ∀ path ∈ files, ¬ Unreadable disk path) :
    ∃ bytes : Path → List UInt8, ∀ path ∈ files, disk.bytes path = .ok (bytes path) := by
  have hbytes : ∀ path, ∃ bytes, path ∈ files → disk.bytes path = .ok bytes := by
    intro path
    cases hpath : disk.bytes path with
    | error cause => exact ⟨[], fun hmem => absurd ⟨cause, hpath⟩ (hread path hmem)⟩
    | ok bytes => exact ⟨bytes, fun _ => rfl⟩
  choose bytes hbytes using hbytes
  exact ⟨bytes, hbytes⟩

theorem MayRank.exists_isFull (h : MayRank orders disk weights threshold files result)
    (hread : ∀ path ∈ files, ¬ Unreadable disk path) (hgood : weights.fault? = none ∨ files.length < 2) :
    ∃ r : Ranking, result = .ok r ∧ r.IsFull orders disk weights threshold files := by
  obtain ⟨bytes, hbytes⟩ := exists_bytes hread
  obtain ⟨compared, hcollects, rfl⟩ := h.exists_compared hbytes
  obtain ⟨report, hreport⟩ := exists_areReports_of_pairs orders (repaired bytes) files hgood
  rw [hcollects.eq_ok fun ij hij => hreport.comparePair_eq hij]
  exact ⟨report.ranking threshold, rfl, bytes, report, hbytes, hreport, hreport.isOf_ranking threshold⟩

/-- Every pair has the same failure, so that the order does not matter. -/
theorem MayRank.eq_weights {fault : WeightFault} (h : MayRank orders disk weights threshold files result)
    (hread : ∀ path ∈ files, ¬ Unreadable disk path) (hfault : weights.fault? = some fault) (htwo : 2 ≤ files.length) :
    result = .error (.weights fault) := by
  obtain ⟨bytes, hbytes⟩ := exists_bytes hread
  obtain ⟨compared, hcollects, rfl⟩ := h.exists_compared hbytes
  have hne : pairsOf (List.finRange files.length) ≠ [] := by
    intro hnil
    have hfew := pairsOf_eq_nil_iff.1 hnil
    rw [List.length_finRange] at hfew
    omega
  rw [hcollects.eq_error (fun ij _ => comparePair_of_fault hfault _) hne]
  rfl

/-- If all files can be read, either every pair has the same failure or all pairs are ranked. -/
theorem MayRank.cases_of_readable (h : MayRank orders disk weights threshold files result)
    (hread : ∀ path ∈ files, ¬ Unreadable disk path) :
    ((∃ aspect, Unusable (weights.get aspect)) ∧ 2 ≤ files.length) ∧ (∃ fault, result = .error (.weights fault)) ∨
      ¬ ((∃ aspect, Unusable (weights.get aspect)) ∧ 2 ≤ files.length) ∧
        ∃ r : Ranking, result = .ok r ∧ r.IsFull orders disk weights threshold files := by
  cases hfault : weights.fault? with
  | none =>
    refine .inr ⟨?_, h.exists_isFull hread (.inl hfault)⟩
    rintro ⟨⟨aspect, hbad⟩, _⟩
    exact Weights.fault?_eq_none_iff.1 hfault aspect hbad
  | some fault =>
    rcases Nat.lt_or_ge files.length 2 with hfew | htwo
    · refine .inr ⟨?_, h.exists_isFull hread (.inr hfew)⟩
      rintro ⟨_, htwo⟩
      omega
    · obtain ⟨aspect, hfirst, _⟩ := Weights.fault?_eq_some_iff.1 hfault
      exact .inl ⟨⟨⟨aspect, hfirst.unusable⟩, htwo⟩, fault, h.eq_weights hread hfault htwo⟩

end

/-- A ranking fails if a file cannot be read, and the failure names such a file, whatever the weights are.  If all files can
be read, it fails if a weight cannot be used and there are two files at least.  In no other case does it fail, be the files
UTF-8 or not, and what it gives is the ranking of all pairs.  This holds of every order in which files are read and pairs
compared, the order of the list being one of them, and of all orders in which grams are visited. -/
theorem rank_fails_iff (orders : Nat → Nat → GramOrders) (disk : Disk) (weights : Weights) (threshold : Float)
    (files : List Path) :
    MayRank orders disk weights threshold files (rankBy orders disk weights threshold files) ∧
      ∀ result, MayRank orders disk weights threshold files result →
        ((∃ path ∈ files, Unreadable disk path) →
          ∃ path ∈ files, ∃ cause, disk.bytes path = .error cause ∧ result = .error (.io cause path)) ∧
        ((∀ path ∈ files, ¬ Unreadable disk path) →
          ((∃ fault, result = .error (.weights fault)) ↔ (∃ aspect, Unusable (weights.get aspect)) ∧ 2 ≤ files.length) ∧
          (¬ ((∃ aspect, Unusable (weights.get aspect)) ∧ 2 ≤ files.length) → ∃ r, result = .ok r)) ∧
        ∀ r, result = .ok r → r.IsFull orders disk weights threshold files := by
  refine ⟨mayRank_rankBy orders disk weights threshold files, fun result hmay => ⟨hmay.exists_io, fun hread => ?_, ?_⟩⟩
  · rcases hmay.cases_of_readable hread with ⟨hbad, hfail⟩ | ⟨hgood, r, rfl, _⟩
    · exact ⟨iff_of_true hfail hbad, fun hgood => absurd hbad hgood⟩
    · refine ⟨iff_of_false ?_ hgood, fun _ => ⟨r, rfl⟩⟩
      rintro ⟨_, ⟨⟩⟩
  · rintro r rfl
    have hread : ∀ path ∈ files, ¬ Unreadable disk path := by
      intro path hpath hbad
      obtain ⟨_, _, _, _, ⟨⟩⟩ := hmay.exists_io ⟨path, hpath, hbad⟩
    rcases hmay.cases_of_readable hread with ⟨_, _, ⟨⟩⟩ | ⟨_, _, ⟨⟩, hfull⟩
    exact hfull

/-- A file that is not UTF-8 between two files that cannot be read, under weights that cannot be used.  Either of the two
files may be named; the one in between is ranked alone, and fails beside itself. -/
theorem ranking_of_unreadable_files :
    let disk : Disk := ⟨fun p => if p = .ofString "a" then .error .noSuchFile
      else if p = .ofString "c" then .error .isAFolder else .ok [255], fun _ => true, fun _ => .error .notAFolder⟩
    let bad : Weights := ⟨1.0, 0.0 / 0.0, 1.0, 1.0, -1.0⟩
    let mixed := [Path.ofString "a", .ofString "b", .ofString "c"]
    let orders : Nat → Nat → GramOrders := fun _ _ => .asListed
    (∀ result, MayRank orders disk bad 0.5 mixed result → result = .error (.io .noSuchFile (.ofString "a")) ∨
        result = .error (.io .isAFolder (.ofString "c"))) ∧
      MayRank orders disk bad 0.5 mixed (.error (.io .isAFolder (.ofString "c"))) ∧
      (∃ r, rank disk bad 0.5 [.ofString "b"] = .ok r) ∧
      ∃ fault, rank disk bad 0.5 [.ofString "b", .ofString "b"] = .error (.weights fault) := by
  intro disk bad mixed orders
  have ha : disk.bytes (.ofString "a") = .error .noSuchFile := by decide +kernel
  have hb : disk.bytes (.ofString "b") = .ok [255] := by decide +kernel
  have hc : disk.bytes (.ofString "c") = .error .isAFolder := by decide +kernel
  have hreadable : ¬ Unreadable disk (.ofString "b") := by
    rintro ⟨cause, hcause⟩
    rw [hb] at hcause
    cases hcause
  have hbad : Unusable (bad.get .length) := isUsable_eq_false_iff.1 (by decide)
  obtain ⟨hone, hsingle⟩ := rank_fails_iff orders disk bad 0.5 [.ofString "b"]
  obtain ⟨htwo, hdouble⟩ := rank_fails_iff orders disk bad 0.5 [.ofString "b", .ofString "b"]
  refine ⟨fun result hresult => ?_, ?_, ?_, ?_⟩
  · obtain ⟨hio, _⟩ := (rank_fails_iff orders disk bad 0.5 mixed).2 result hresult
    obtain ⟨path, hpath, cause, hcause, rfl⟩ := hio ⟨_, List.mem_cons_self, _, ha⟩
    simp only [mixed, List.mem_cons, List.not_mem_nil, or_false] at hpath
    rcases hpath with rfl | rfl | rfl
    · rw [ha] at hcause
      cases hcause
      exact .inl rfl
    · rw [hb] at hcause
      cases hcause
    · rw [hc] at hcause
      cases hcause
      exact .inr rfl
  · have hmem : Except.error (Failure.io .isAFolder (.ofString "c")) ∈ mixed.map (analyseFile disk) :=
      List.mem_map.2 ⟨.ofString "c", by simp [mixed], analyseFile_of_error hc⟩
    exact ⟨_, .failure _ hmem, rfl⟩
  · refine ((hsingle _ hone).2.1 (by simpa using hreadable)).2 ?_
    rintro ⟨_, hle⟩
    simp at hle
  · exact ((hdouble _ htwo).2.1 (by simpa using hreadable)).1.2 ⟨⟨_, hbad⟩, by simp⟩

end Likeness
