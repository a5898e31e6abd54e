import Likeness.Proofs.Kinds
import Likeness.Proofs.Names
import Likeness.Proofs.Separators

/-!
# Rendering a stream and reading it again

Tokens that are written with single spaces between them are read as the same tokens: each is cut where it ends, and none
of them opens a comment or a literal, whatever stands next to it.

* `tokens_clean_intercalate` is the round trip of a stream of lexemes;
* `isLexeme_normalForm` and `ofTokens_normalForm` say what the normal form shares with the stream that it is made of;
* `analysis_rendering` is the round trip for the whole analysis and for its normal form.
-/

namespace Likeness

/-! ### Lexemes are code -/

private theorem clean_operators : ∀ op ∈ operators, clean op = op ∧ Mode.after .code op = .code := by
  decide +kernel

private theorem isPlain_of_isWord {t : Token} (h : IsWord t) : IsPlain t := by
  intro c hc
  refine ⟨?_, ?_⟩
  · rintro rfl
    cases t with
    | nil => exact h
    | cons d rest =>
      rcases List.mem_cons.1 hc with rfl | hc
      · exact absurd h.1 (by decide)
      · exact absurd (h.2 _ hc) (by decide)
  · cases hq : Quote.ofChar? c with
    | none => rfl
    | some q => exact absurd (.inr ⟨q, Quote.ofChar?_eq_some.1 hq⟩) (not_breaks_of_mem_lexeme (.inl h) hc)

/-- A lexeme is cleaned to itself and leaves nothing open. -/
theorem clean_of_isLexeme {t : Token} (h : IsLexeme t) : clean t = t ∧ Settled t := by
  rcases h with h | ⟨h, _⟩
  · exact ⟨clean_of_isPlain (isPlain_of_isWord h), (annotate_of_isPlain (isPlain_of_isWord h)).2⟩
  · exact clean_operators t h

private theorem separates_space (before : List Char) : Separates before [' '] := by
  refine .blanks (by simp) ?_
  simp only [List.mem_singleton, forall_eq]
  decide

/-- Lexemes with single spaces between them are read as what they are. -/
theorem tokens_clean_intercalate {stream : List Token} (h : ∀ t ∈ stream, IsLexeme t) :
    tokens (clean ([' '].intercalate stream)) = stream := by
  induction stream with
  | nil => simp [clean_eq_flatMap, annotate, tokens, pieces]
  | cons t stream ih =>
    have ht : IsLexeme t := h t (by simp)
    obtain ⟨hclean, settled⟩ := clean_of_isLexeme ht
    cases stream with
    | nil => rw [List.intercalate_singleton, hclean, tokens_of_isLexeme ht]
    | cons u stream =>
      -- the space after `t` is a separator, so `t` is read apart from the rest
      have ih := ih fun v hv => h v (by simp [hv])
      rw [List.intercalate_cons_cons, tokens_clean_append_separator settled (separates_space t), hclean,
        tokens_of_isLexeme ht, ih]
      rfl

/-! ### The normal form as a stream -/

theorem isLexeme_numberedName (k : Nat) : IsLexeme (numberedName k) :=
  .inl (isWord_numberedName k)

/-- The normal form of a stream of lexemes is one. -/
theorem isLexeme_normalForm {stream : List Token} (h : ∀ t ∈ stream, IsLexeme t) :
    ∀ t ∈ normalForm stream, IsLexeme t := by
  intro t ht
  rw [normalForm_eq_map] at ht
  obtain ⟨u, hu, rfl⟩ := List.mem_map.1 ht
  unfold standIn
  split
  · exact isLexeme_numberedName _
  · exact h u (mem_meaningful.1 hu).1

theorem keywordTally_normalForm (stream : List Token) : keywordTally (normalForm stream) = keywordTally stream := by
  unfold keywordTally Tally.ofSlots
  rw [filterMap_normalForm]
  intro t hkeyword _
  exact List.idxOf?_eq_none_iff.2 (mt kind_eq_keyword_iff.2 hkeyword)

theorem operatorTally_normalForm (stream : List Token) : operatorTally (normalForm stream) = operatorTally stream := by
  unfold operatorTally Tally.ofSlots
  rw [filterMap_normalForm]
  intro t _ hoperator
  split
  · rfl
  · exact List.idxOf?_eq_none_iff.2 (mt kind_eq_operator_iff.2 hoperator)

theorem identifierSequence_normalForm (stream : List Token) :
    identifierSequence (normalForm stream) = identifierSequence stream := by
  rw [← identifiers_normalForm, normalForm_normalForm, identifiers_normalForm]

/-- The normal form is analysed as the stream that it is made of, but for its tokens. -/
theorem ofTokens_normalForm (stream : List Token) :
    Analysis.ofTokens (normalForm stream) = { Analysis.ofTokens stream with tokens := normalForm stream } := by
  unfold Analysis.ofTokens
  rw [keywordTally_normalForm, operatorTally_normalForm, identifierSequence_normalForm, normalForm_normalForm]

/-! ### The round trip -/

/-- Writing the tokens of a source with single spaces between them and analysing that gives the same analysis; with the
normal form in the place of the tokens it gives the normal form as tokens, and all else as before. -/
theorem analysis_rendering (source : List Char) :
    Analysis.ofSource ([' '].intercalate (Analysis.ofSource source).tokens) = Analysis.ofSource source ∧
    Analysis.ofSource ([' '].intercalate (Analysis.ofSource source).normalized) =
      { Analysis.ofSource source with tokens := (Analysis.ofSource source).normalized } := by
  have hlexemes : ∀ t ∈ (Analysis.ofSource source).tokens, IsLexeme t := fun t ht => isLexeme_of_mem_tokens ht
  constructor
  · exact congrArg Analysis.ofTokens (tokens_clean_intercalate hlexemes)
  · have htokens := tokens_clean_intercalate (isLexeme_normalForm hlexemes)
    exact (congrArg Analysis.ofTokens htokens).trans (ofTokens_normalForm (Analysis.ofSource source).tokens)

end Likeness
