import Likeness.Analysis
import Likeness.Proofs.Counting
import Likeness.Proofs.Kinds
import Likeness.Proofs.Names
import Mathlib.Algebra.BigOperators.Ring.Finset

/-!
# Accounting for tokens

Each token of a text is counted once: by one slot of one of the two tallies, as a delimiter, as a name, or as a word for a
value.

* (slots) the tally of a vocabulary counts in each slot the tokens that are its entry, and in total the tokens that are in
  the vocabulary (`count_ofVocabulary`, `total_ofVocabulary`).
* (kinds) the kinds divide a stream, and the delimiters are a part of the operators (`length_eq_countP`).
* `accountsForTokens_ofSource` puts the five views of a text together.
-/

namespace Likeness

/-! ### Slots -/

section

variable {vocabulary stream : List Token}

private theorem idxOf?_eq_some_iff_of_nodup (distinct : vocabulary.Nodup) {i : Nat} (hi : i < vocabulary.length)
    {t : Token} : vocabulary.idxOf? t = some i ↔ t = vocabulary[i] := by
  rw [List.idxOf?_eq_some_iff]
  constructor
  · rintro ⟨_, rfl, _⟩
    rfl
  · rintro rfl
    refine ⟨hi, rfl, fun j hj hsame => ?_⟩
    have := (distinct.getElem_inj_iff).1 hsame
    omega

/-- The tally of a vocabulary. -/
def Tally.ofVocabulary (vocabulary stream : List Token) : Tally :=
  .ofSlots vocabulary.length vocabulary.idxOf? stream

theorem count_ofVocabulary (distinct : vocabulary.Nodup) (few : stream.length < UInt32.size) {i : Nat}
    (hi : i < vocabulary.length) : (Tally.ofVocabulary vocabulary stream).count i = stream.count vocabulary[i] := by
  rw [Tally.ofVocabulary, Tally.count_ofSlots hi _ few, List.count_filterMap, List.count]
  refine List.countP_congr fun t _ => ?_
  rw [beq_iff_eq, beq_iff_eq, idxOf?_eq_some_iff_of_nodup distinct hi]

private theorem sum_count {slots : List Nat} {n : Nat} (h : ∀ i ∈ slots, i < n) :
    ((List.range n).map fun i => slots.count i).sum = slots.length := by
  have hsum := @Multiset.sum_count_eq_card _ _ (Finset.range n) (slots : Multiset Nat) (by simpa using h)
  simpa [Finset.sum, Multiset.range] using hsum

private theorem total_eq_sum (v : Tally) : v.total = ((List.range v.dimension).map v.count).sum := by
  have hcounts : (List.range v.dimension).map v.count = v.counts.map UInt32.toNat := by
    refine List.ext_getElem (by simp [Tally.dimension]) fun i hi _ => ?_
    have hlt : i < v.counts.length := by simpa [Tally.dimension] using hi
    simp [Tally.count, Tally.get?, List.getElem?_eq_getElem hlt]
  rw [hcounts, List.sum_eq_foldl, List.foldl_map, Tally.total]

theorem total_ofVocabulary (few : stream.length < UInt32.size) :
    (Tally.ofVocabulary vocabulary stream).total = stream.countP (· ∈ vocabulary) := by
  have hcounts : ∀ i ∈ List.range vocabulary.length,
      (Tally.ofVocabulary vocabulary stream).count i = (stream.filterMap vocabulary.idxOf?).count i :=
    fun i hi => Tally.count_ofSlots (List.mem_range.1 hi) _ few
  have hslots : ∀ i ∈ stream.filterMap vocabulary.idxOf?, i < vocabulary.length := by
    intro i hi
    obtain ⟨t, _, ht⟩ := List.mem_filterMap.1 hi
    exact (List.idxOf?_eq_some_iff.1 ht).1
  rw [total_eq_sum, Tally.ofVocabulary, Tally.dimension_ofSlots, ← Tally.ofVocabulary, List.map_congr_left hcounts,
    sum_count hslots, List.length_filterMap_eq_countP]
  refine List.countP_congr fun t _ => ?_
  rw [List.isSome_idxOf?, decide_eq_true_iff]

end

theorem keywordTally_eq (stream : List Token) : keywordTally stream = .ofVocabulary keywords stream :=
  rfl

/-- Operators are counted as if there were no delimiters. -/
theorem operatorTally_eq (stream : List Token) :
    operatorTally stream = .ofVocabulary operators (stream.filter (· ∉ delimiters)) := by
  unfold operatorTally Tally.ofVocabulary Tally.ofSlots
  rw [List.filterMap_filter]
  congr 2
  funext t
  by_cases h : t ∈ delimiters <;> simp [h, operatorSlot]

/-! ### Kinds -/

theorem length_eq_countP (stream : List Token) :
    stream.length = stream.countP (·.kind = .keyword) + stream.countP (·.kind = .operator) +
      stream.countP (·.kind = .identifier) + stream.countP (·.kind = .excludedLiteral) +
      stream.countP (·.kind = .other) := by
  induction stream with
  | nil => rfl
  | cons t stream ih =>
    simp only [List.length_cons, List.countP_cons, decide_eq_true_eq]
    cases t.kind <;> simp <;> omega

private theorem countP_kind_keyword (stream : List Token) :
    stream.countP (·.kind = .keyword) = stream.countP (· ∈ keywords) :=
  List.countP_congr fun t _ => by simp [kind_eq_keyword_iff]

private theorem countP_kind_excludedLiteral (stream : List Token) :
    stream.countP (·.kind = .excludedLiteral) = stream.countP (· ∈ excludedLiterals) :=
  List.countP_congr fun t _ => by simp [kind_eq_excludedLiteral_iff]

/-- The operators of a stream are those that are counted and the delimiters. -/
private theorem countP_kind_operator (stream : List Token) :
    stream.countP (·.kind = .operator) =
      (stream.filter (· ∉ delimiters)).countP (· ∈ operators) + stream.countP (· ∈ delimiters) := by
  have hkind : stream.countP (·.kind = .operator) = stream.countP (· ∈ operators) :=
    List.countP_congr fun t _ => by simp [kind_eq_operator_iff]
  have hdelimiters : (stream.filter fun t => !decide (t ∉ delimiters)).countP (· ∈ operators) =
      stream.countP (· ∈ delimiters) := by
    rw [List.countP_filter]
    refine List.countP_congr fun t _ => ?_
    simpa using fun h => mem_operators_of_mem_delimiters h
  rw [hkind, List.countP_eq_countP_filter_add stream _ (· ∉ delimiters), hdelimiters]

private theorem countP_kind_other {stream : List Token} (h : ∀ t ∈ stream, IsLexeme t) :
    stream.countP (·.kind = .other) = 0 :=
  List.countP_eq_zero.2 fun t ht => by simpa using kind_ne_other_of_isLexeme (h t ht)

private theorem length_identifierSequence (stream : List Token) :
    (identifierSequence stream).length = stream.countP (·.kind = .identifier) := by
  rw [identifierSequence_eq_map, List.length_map, identifiers, List.countP_eq_length_filter]

private theorem length_normalForm (stream : List Token) :
    (normalForm stream).length + stream.countP (·.kind = .excludedLiteral) + stream.countP (·.kind = .other) =
      stream.length := by
  rw [normalForm_eq_map, List.length_map, meaningful, ← List.countP_eq_length_filter]
  simp only [ne_eq, Bool.decide_and, decide_not]
  induction stream with
  | nil => rfl
  | cons t stream ih =>
    simp only [List.length_cons, List.countP_cons, decide_eq_true_eq]
    cases t.kind <;> simp <;> omega

/-! ### The views of a text -/

/-- Each token of an analysis is counted in one place, and what has a place is counted right. -/
structure AccountsForTokens (a : Analysis) : Prop where
  noOther : ∀ t ∈ a.tokens, t.kind ≠ .other
  keywordSlots : a.keywords.dimension = keywords.length
  keyword : ∀ i, (hi : i < keywords.length) → a.keywords.count i = a.tokens.count keywords[i]
  operatorSlots : a.operators.dimension = operators.length
  operator : ∀ i, (hi : i < operators.length) → operators[i] ∉ delimiters →
    a.operators.count i = a.tokens.count operators[i]
  /-- The slots of the delimiters, and of the operator that is wider than the window, stay empty. -/
  silent : ∀ i, (hi : i < operators.length) → operators[i] ∈ delimiters ∨ operators[i] = ">>>=".toList →
    a.operators.count i = 0
  tokenCount : a.tokenCount = a.keywords.total + a.operators.total + a.tokens.countP (· ∈ delimiters) +
    a.identifiers.length + a.tokens.countP (· ∈ excludedLiterals)
  normalized : a.normalized.length + a.tokens.countP (· ∈ excludedLiterals) = a.tokenCount

theorem accountsForTokens_ofTokens {stream : List Token} (h : ∀ t ∈ stream, IsLexeme t)
    (few : stream.length < UInt32.size) : AccountsForTokens (.ofTokens stream) := by
  have hfew : (stream.filter (· ∉ delimiters)).length < UInt32.size :=
    Nat.lt_of_le_of_lt (List.length_filter_le _ _) few
  have hoperator : ∀ i, (hi : i < operators.length) →
      (operatorTally stream).count i = (stream.filter (· ∉ delimiters)).count operators[i] := fun i hi => by
    rw [operatorTally_eq, count_ofVocabulary operators_nodup hfew hi]
  refine ⟨fun t ht => kind_ne_other_of_isLexeme (h t ht), Tally.dimension_ofSlots _ _ _, ?_,
    Tally.dimension_ofSlots _ _ _, ?_, ?_, ?_, ?_⟩
  · exact fun i hi => count_ofVocabulary keywords_nodup few hi
  · intro i hi hdelimiter
    exact (hoperator i hi).trans (List.count_filter (by simpa using hdelimiter))
  · intro i hi hsilent
    refine (hoperator i hi).trans (List.count_eq_zero.2 fun hmem => ?_)
    obtain ⟨hstream, hdelimiter⟩ := List.mem_filter.1 hmem
    rcases hsilent with hsilent | hwide
    · exact of_decide_eq_true hdelimiter hsilent
    · rw [hwide] at hstream
      rcases h _ hstream with hword | ⟨_, hlength⟩
      · exact absurd hword.1 (by decide)
      · exact absurd hlength (by decide)
  · have hkinds := length_eq_countP stream
    rw [countP_kind_keyword, countP_kind_operator, countP_kind_excludedLiteral, countP_kind_other h,
      ← length_identifierSequence] at hkinds
    change stream.length = (keywordTally stream).total + (operatorTally stream).total + stream.countP (· ∈ delimiters) +
      (identifierSequence stream).length + stream.countP (· ∈ excludedLiterals)
    rw [keywordTally_eq, operatorTally_eq, total_ofVocabulary few, total_ofVocabulary hfew]
    omega
  · have hlength := length_normalForm stream
    rw [countP_kind_excludedLiteral, countP_kind_other h] at hlength
    exact hlength

/-- All tokens of a text are accounted for, once each, as long as no slot can overflow. -/
theorem accountsForTokens_ofSource (source : List Char) (few : (Analysis.ofSource source).tokenCount < 2 ^ 32) :
    AccountsForTokens (.ofSource source) :=
  accountsForTokens_ofTokens (fun _ ht => isLexeme_of_mem_tokens ht) few

/-- A text with a token of each kind, and the operator that is wider than the window. -/
theorem accountsForTokens_of_each_kind :
    (Analysis.ofSource "while (x >>>= null)".toList).tokenCount < 2 ^ 32 ∧
      AccountsForTokens (.ofSource "while (x >>>= null)".toList) := by
  have few : (Analysis.ofSource "while (x >>>= null)".toList).tokenCount < 2 ^ 32 := by decide +kernel
  exact ⟨few, accountsForTokens_ofSource _ few⟩

end Likeness
