import Likeness.Proofs.Range
import Likeness.Proofs.Rendering

/-!
# Windows and their grams

To count grams is to count windows: every window is counted, windows are written alike only if they are the same, and no
count overflows.

* (windows) `windows_eq_map` lists the windows by the places where they start.
* (texts) a gram of tokens without spaces can be split at its spaces again, so that no two windows share a gram
  (`gram_injective`).
* (counts) `GramCounts.CountsWindows` says what it is to count windows, and `countsWindows_gramCounts` that the grams of a
  sequence do so.
* (tokens) no numbered name and no token of a source has a space (`spaceless_identifiers`, `spaceless_normalized`), so that
  `gramsOf_countsWindows` holds of all that is compared.
-/

namespace Likeness

/-! ### Windows -/

section

variable {α : Type}

/-- The window of a width that starts at a place. -/
def windowAt (width : Nat) (sequence : List α) (start : Nat) : List α :=
  (sequence.drop start).take width

/-- The places where a window of a width starts. -/
def windowStarts (width : Nat) (sequence : List α) : List Nat :=
  List.range (sequence.length + 1 - width)

theorem mem_windowStarts {width start : Nat} {sequence : List α} :
    start ∈ windowStarts width sequence ↔ start + width ≤ sequence.length := by
  rw [windowStarts, List.mem_range]
  omega

theorem windowAt_ne_nil {width start : Nat} (h : width ≠ 0) {sequence : List α}
    (hstart : start ∈ windowStarts width sequence) : windowAt width sequence start ≠ [] := by
  rw [mem_windowStarts] at hstart
  refine List.ne_nil_of_length_pos ?_
  rw [windowAt, List.length_take, List.length_drop]
  omega

theorem mem_of_mem_windowAt {width start : Nat} {sequence : List α} {x : α} (h : x ∈ windowAt width sequence start) :
    x ∈ sequence :=
  List.mem_of_mem_drop (List.mem_of_mem_take h)

theorem getElem?_windowAt (width : Nat) (sequence : List α) (start k : Nat) :
    (windowAt width sequence start)[k]? = if k < width then sequence[start + k]? else none := by
  rw [windowAt, List.getElem?_take, List.getElem?_drop]

theorem windowAt_eq_iff {width i j : Nat} {sequence : List α} :
    windowAt width sequence i = windowAt width sequence j ↔ ∀ k < width, sequence[i + k]? = sequence[j + k]? := by
  simp only [List.ext_getElem?_iff, getElem?_windowAt]
  constructor
  · intro h k hk
    simpa [hk] using h k
  · intro h k
    split
    · next hk => exact h k hk
    · rfl

theorem windows_eq_map {width : Nat} (h : width ≠ 0) (sequence : List α) :
    windows width sequence = (windowStarts width sequence).map (windowAt width sequence) := by
  induction sequence with
  | nil =>
    have hnone : 0 + 1 - width = 0 := by omega
    rw [windows, windowStarts, List.length_nil, hnone]
    rfl
  | cons x xs ih =>
    simp only [windows, windowStarts, List.length_take, List.length_cons]
    by_cases hfits : width ≤ xs.length + 1
    · -- the first window starts here, the others start where those of the rest do
      have hstarts : xs.length + 1 + 1 - width = (xs.length + 1 - width) + 1 := by omega
      rw [if_pos (Nat.min_eq_left hfits), ih, hstarts, List.range_succ_eq_map, List.map_cons, List.map_map]
      rfl
    · have hnone : xs.length + 1 + 1 - width = 0 := by omega
      rw [if_neg (by omega), hnone]
      rfl

end

/-! ### Texts of windows -/

/-- Tokens without spaces, so that a space between them can be told from what they are made of. -/
def Spaceless (sequence : List Token) : Prop :=
  ∀ t ∈ sequence, ' ' ∉ t

theorem splitOn_gram {window : List Token} (hne : window ≠ []) (h : Spaceless window) :
    (gram window).splitOn ' ' = window :=
  List.splitOn_intercalate ' ' h hne

theorem gram_injective {window window' : List Token} (hne : window ≠ []) (hne' : window' ≠ []) (h : Spaceless window)
    (h' : Spaceless window') (hsame : gram window = gram window') : window = window' := by
  rw [← splitOn_gram hne h, hsame, splitOn_gram hne' h']

theorem gram_windowAt_eq_iff {width i j : Nat} (hwidth : width ≠ 0) {sequence : List Token} (h : Spaceless sequence)
    (hi : i ∈ windowStarts width sequence) (hj : j ∈ windowStarts width sequence) :
    gram (windowAt width sequence i) = gram (windowAt width sequence j) ↔
      windowAt width sequence i = windowAt width sequence j := by
  refine ⟨fun hsame => ?_, congrArg gram⟩
  exact gram_injective (windowAt_ne_nil hwidth hi) (windowAt_ne_nil hwidth hj)
    (fun t ht => h t (mem_of_mem_windowAt ht)) (fun t ht => h t (mem_of_mem_windowAt ht)) hsame

/-! ### Counts of windows -/

/-- What it is for grams to count the windows of a width.  The grams that have an entry are the texts of the windows, windows
with the same text are the same item by item, and a window is counted once for each place where it starts. -/
structure GramCounts.CountsWindows (counts : GramCounts) (width : Nat) (sequence : List Token) : Prop where
  mem_iff : ∀ key, (∃ n, counts.count? key = some n) ↔
    ∃ i, i + width ≤ sequence.length ∧ key = gram (windowAt width sequence i)
  gram_eq_iff : ∀ i j, i + width ≤ sequence.length → j + width ≤ sequence.length →
    (gram (windowAt width sequence i) = gram (windowAt width sequence j) ↔
      ∀ k < width, sequence[i + k]? = sequence[j + k]?)
  count : ∀ i, i + width ≤ sequence.length →
    counts.occurrences (gram (windowAt width sequence i)) =
      (windowStarts width sequence).countP fun j => windowAt width sequence j = windowAt width sequence i
  distinct : counts.Pairwise (·.1 ≠ ·.1)
  pos : ∀ entry ∈ counts, 1 ≤ entry.2.toNat
  total : counts.total = sequence.length + 1 - width

theorem mem_grams_iff {width : Nat} (h : width ≠ 0) {sequence : List Token} {key : List Char} :
    key ∈ (windows width sequence).map gram ↔
      ∃ i, i + width ≤ sequence.length ∧ key = gram (windowAt width sequence i) := by
  simp only [windows_eq_map h, List.map_map, List.mem_map, mem_windowStarts, Function.comp_apply, eq_comm]

theorem count_gram_windowAt {width i : Nat} (hwidth : width ≠ 0) {sequence : List Token} (h : Spaceless sequence)
    (hi : i ∈ windowStarts width sequence) :
    ((windows width sequence).map gram).count (gram (windowAt width sequence i)) =
      (windowStarts width sequence).countP fun j => windowAt width sequence j = windowAt width sequence i := by
  rw [windows_eq_map hwidth, List.map_map, List.count, List.countP_map]
  refine List.countP_congr fun j hj => ?_
  simp only [Function.comp_apply, beq_iff_eq, decide_eq_true_eq]
  exact gram_windowAt_eq_iff hwidth h hj hi

theorem total_gramCounts {width : Nat} (hwidth : width ≠ 0) {sequence : List Token} (hlen : sequence.length < 2 ^ 32) :
    (gramCounts width sequence).total = sequence.length + 1 - width := by
  let grams := (windows width sequence).map gram
  calc (gramCounts width sequence).total
    _ = (grams.dedup.map fun g => (UInt32.ofNat (grams.count g)).toNat).sum := total_gramCounts_eq_sum width sequence
    _ = (grams.dedup.map grams.count).sum := by simp only [grams, toNat_ofNat_count_gram width hlen]
    _ = grams.length := by
      convert List.sum_map_count_dedup_eq_length grams
      rfl
    _ = sequence.length + 1 - width := by
      simp only [grams, windows_eq_map hwidth, List.length_map, windowStarts, List.length_range]

theorem countsWindows_gramCounts {width : Nat} (hwidth : width ≠ 0) {sequence : List Token} (h : Spaceless sequence)
    (hlen : sequence.length < 2 ^ 32) : (gramCounts width sequence).CountsWindows width sequence where
  mem_iff key := by
    rw [GramCounts.count?_gramCounts, ← mem_grams_iff hwidth]
    split <;> simp [*]
  gram_eq_iff i j hi hj := by
    rw [gram_windowAt_eq_iff hwidth h (mem_windowStarts.2 hi) (mem_windowStarts.2 hj), windowAt_eq_iff]
  count i hi := by
    have hmem := (mem_grams_iff hwidth).2 ⟨i, hi, rfl⟩
    rw [GramCounts.occurrences, GramCounts.count?_gramCounts, if_pos hmem, Option.getD_some,
      toNat_ofNat_count_gram width hlen, count_gram_windowAt hwidth h (mem_windowStarts.2 hi)]
  distinct := (isProfile_gramCounts width hlen).distinct
  pos entry hentry := Nat.pos_of_ne_zero fun hzero =>
    (isProfile_gramCounts width hlen).ne_zero entry hentry (UInt32.toNat_inj.1 hzero)
  total := total_gramCounts hwidth hlen

/-! ### Tokens have no spaces -/

theorem spaceless_of_isLexeme {sequence : List Token} (h : ∀ t ∈ sequence, IsLexeme t) : Spaceless sequence := by
  intro t ht hspace
  exact not_breaks_of_mem_lexeme (h t ht) hspace (.inl (by decide))

theorem spaceless_normalized (source : List Char) : Spaceless (Analysis.ofSource source).normalized :=
  spaceless_of_isLexeme (isLexeme_normalForm fun _ ht => isLexeme_of_mem_tokens ht)

theorem spaceless_identifiers (source : List Char) : Spaceless (Analysis.ofSource source).identifiers := by
  refine spaceless_of_isLexeme fun t ht => ?_
  have hsequence : t ∈ identifierSequence (tokens (clean source)) := ht
  rw [identifierSequence_eq_map] at hsequence
  obtain ⟨name, _, rfl⟩ := List.mem_map.1 hsequence
  exact isLexeme_numberedName _

/-- The grams of a width other than zero, in a sequence of less than 2^32 tokens without spaces, count the windows of that
width.  No token that is compared has a space, whatever the source, so that this holds of all grams that are compared. -/
theorem gramsOf_countsWindows :
    (∀ (width : Nat) (sequence : List Token), width ≠ 0 → Spaceless sequence → sequence.length < 2 ^ 32 →
      ∃ counts, gramsOf sequence width = .ok counts ∧ counts.CountsWindows width sequence) ∧
    ∀ source : List Char,
      Spaceless (Analysis.ofSource source).identifiers ∧ Spaceless (Analysis.ofSource source).normalized := by
  refine ⟨fun width sequence hwidth h hlen => ?_, fun source => ?_⟩
  · exact ⟨_, if_neg hwidth, countsWindows_gramCounts hwidth h hlen⟩
  · exact ⟨spaceless_identifiers source, spaceless_normalized source⟩

/-- A sequence with empty tokens, in which one window starts twice and another one is made of empty tokens only. -/
theorem windows_of_empty_tokens :
    let sequence : List Token := [[], ['x'], [], [], ['x'], []]
    Spaceless sequence ∧ ∃ counts, gramsOf sequence 2 = .ok counts ∧ counts.occurrences [' ', 'x'] = 2 ∧
      counts.occurrences [' '] = 1 ∧ counts.total = 5 := by
  intro sequence
  have h : Spaceless sequence := by
    unfold Spaceless
    decide
  obtain ⟨counts, hcounts, hwindows⟩ := gramsOf_countsWindows.1 2 sequence (by decide) h (by decide)
  exact ⟨h, counts, hcounts, hwindows.count 0 (by decide), hwindows.count 2 (by decide), hwindows.total⟩

end Likeness
