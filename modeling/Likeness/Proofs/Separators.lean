import Likeness.Analysis
import Likeness.Proofs.Cleaning
import Likeness.Proofs.Counting
import Likeness.Proofs.Lexing

/-!
# Separators

White space, a comment or a literal between two texts separates them: what stands on one side is analysed without the
other, and what stands in the comment or literal leaves no trace.

* `Separates` lists the separators, with what the text before a comment must not end with;
* `annotate_block_append`, `annotate_line_append`, `annotate_literal_append` give the roles in a comment or literal as far as
  it goes on, and `annotate_blockComment`, `annotate_lineComment`, `annotate_literal` in one that is closed where it ends;
* `analysis_append_separator` is the law for the whole analysis.
-/

namespace Likeness

/-- A text is settled if it is left in the mode of code: all its comments and literals are closed. -/
def Settled (text : List Char) : Prop :=
  Mode.after .code text = .code

/-- The inside of a literal: characters other than its quote and the backslash, and pairs of a backslash and any
character. -/
inductive IsLiteralBody (q : Quote) : List Char → Prop
  | nil : IsLiteralBody q []
  | plain {c : Char} {body : List Char} (notQuote : c ≠ q.char) (notEscape : c ≠ '\\') (rest : IsLiteralBody q body) :
      IsLiteralBody q (c :: body)
  | pair (c : Char) {body : List Char} (rest : IsLiteralBody q body) : IsLiteralBody q ('\\' :: c :: body)

/-- What separates the text before it from any text after it. -/
inductive Separates (before : List Char) : List Char → Prop
  | blanks {run : List Char} (some : run ≠ []) (blank : ∀ c ∈ run, isBlank c = true) : Separates before run
  | blockComment {body : List Char} (closed : ¬ ['*', '/'] <:+: body) (slash : before.getLast? ≠ some '/') :
      Separates before ('/' :: '*' :: (body ++ ['*', '/']))
  | lineComment {body : List Char} (closed : '\n' ∉ body) (slash : before.getLast? ≠ some '/') :
      Separates before ('/' :: '/' :: (body ++ ['\n']))
  | literal (q : Quote) {body : List Char} (closed : IsLiteralBody q body) :
      Separates before (q.char :: (body ++ [q.char]))

/-! ### Roles in comments and literals -/

/-- The role of a character in a block comment. -/
def Role.inBlock (c : Char) : Char × Role :=
  (c, if c = '\n' then .lineEnd else .remark)

/-- A block comment that is not closed goes on. -/
theorem annotate_block_append {body rest : List Char} (closed : ¬ ['*', '/'] <:+: body) (hrest : rest.head? ≠ some '/') :
    annotate .blockComment (body ++ rest) = body.map Role.inBlock ++ annotate .blockComment rest ∧
      Mode.after .blockComment (body ++ rest) = Mode.after .blockComment rest := by
  induction body with
  | nil => exact ⟨rfl, rfl⟩
  | cons c body ih =>
    obtain ⟨hroles, hafter⟩ := ih fun h => closed (List.infix_cons h)
    have open_ : c = '*' → (body ++ rest).head? ≠ some '/' := by
      rintro rfl h
      cases body with
      | nil => exact hrest h
      | cons d body =>
        obtain rfl : d = '/' := by simpa using h
        exact closed ⟨[], body, rfl⟩
    rw [List.cons_append, annotate_block_cons open_, after_block_cons open_, hroles, hafter]
    exact ⟨rfl, rfl⟩

/-- A line comment goes on to the end of the line. -/
theorem annotate_line_append {body : List Char} (closed : '\n' ∉ body) (rest : List Char) :
    annotate .lineComment (body ++ rest) = body.map (·, Role.remark) ++ annotate .lineComment rest ∧
      Mode.after .lineComment (body ++ rest) = Mode.after .lineComment rest := by
  induction body with
  | nil => exact ⟨rfl, rfl⟩
  | cons c body ih =>
    rw [List.mem_cons, not_or] at closed
    obtain ⟨hroles, hafter⟩ := ih closed.2
    rw [List.cons_append, annotate_line_cons (Ne.symm closed.1), after_line_cons (Ne.symm closed.1), hroles, hafter]
    exact ⟨rfl, rfl⟩

/-- A literal goes on to its quote. -/
theorem annotate_literal_append {q : Quote} {body : List Char} (closed : IsLiteralBody q body) (rest : List Char) :
    annotate (.literal q) (body ++ rest) = body.map (·, Role.body) ++ annotate (.literal q) rest ∧
      Mode.after (.literal q) (body ++ rest) = Mode.after (.literal q) rest := by
  induction closed with
  | nil => exact ⟨rfl, rfl⟩
  | plain notQuote notEscape _ ih =>
    rw [List.cons_append, annotate_literal_cons notEscape, after_literal_cons notEscape, if_neg notQuote,
      if_neg notQuote, ih.1, ih.2]
    exact ⟨rfl, rfl⟩
  | pair c _ ih =>
    rw [List.cons_append, List.cons_append, annotate, Mode.after, ih.1, ih.2]
    exact ⟨rfl, rfl⟩

theorem annotate_blockComment {body : List Char} (closed : ¬ ['*', '/'] <:+: body) :
    annotate .blockComment (body ++ ['*', '/']) = body.map Role.inBlock ++ [('*', .remark), ('/', .remark)] ∧
      Mode.after .blockComment (body ++ ['*', '/']) = .code := by
  obtain ⟨hroles, hafter⟩ := @annotate_block_append body ['*', '/'] closed (by simp)
  rw [hroles, hafter]
  exact ⟨by simp [annotate], rfl⟩

theorem annotate_lineComment {body : List Char} (closed : '\n' ∉ body) :
    annotate .lineComment (body ++ ['\n']) = body.map (·, Role.remark) ++ [('\n', .lineEnd)] ∧
      Mode.after .lineComment (body ++ ['\n']) = .code := by
  obtain ⟨hroles, hafter⟩ := annotate_line_append closed ['\n']
  rw [hroles, hafter]
  exact ⟨by simp [annotate], rfl⟩

theorem annotate_literal {q : Quote} {body : List Char} (closed : IsLiteralBody q body) :
    annotate (.literal q) (body ++ [q.char]) = body.map (·, Role.body) ++ [(q.char, .quote)] ∧
      Mode.after (.literal q) (body ++ [q.char]) = .code := by
  obtain ⟨hroles, hafter⟩ := annotate_literal_append closed [q.char]
  rw [hroles, hafter, annotate_literal_cons q.char_ne_escape, after_literal_cons q.char_ne_escape, if_pos rfl, if_pos rfl]
  exact ⟨by simp [annotate], rfl⟩

/-! ### What is left of a separator -/

private theorem uncut_of_getLast? {before sep : List Char} (h : before.getLast? ≠ some '/') :
    Uncut .code before sep := by
  rintro - ⟨roles, hroles⟩
  have := congrArg (List.map Prod.fst) hroles
  rw [map_fst_annotate] at this
  exact h (by simp [← this])

private theorem uncut_of_head? {before : List Char} {c : Char} (sep : List Char) (h : c ≠ '/' ∧ c ≠ '*') :
    Uncut .code before (c :: sep) := by
  rintro (hs | hs)
  · exact absurd (Option.some.inj hs) h.1
  · exact absurd (Option.some.inj hs) h.2

/-- No comment sign is cut before a separator. -/
theorem uncut_before {before sep : List Char} (h : Separates before sep) : Uncut .code before sep := by
  cases h with
  | blanks some blank =>
    obtain ⟨c, rest, rfl⟩ := List.exists_cons_of_ne_nil some
    have hc := blank c (by simp)
    refine uncut_of_head? rest ⟨?_, ?_⟩
    · rintro rfl
      exact absurd hc (by decide)
    · rintro rfl
      exact absurd hc (by decide)
  | blockComment _ slash => exact uncut_of_getLast? slash
  | lineComment _ slash => exact uncut_of_getLast? slash
  | literal q _ => exact uncut_of_head? _ (by cases q <;> decide)

private theorem isPlain_of_blank {run : List Char} (blank : ∀ c ∈ run, isBlank c = true) : IsPlain run := by
  intro c hc
  have hblank := blank c hc
  refine ⟨?_, ?_⟩
  · rintro rfl
    exact absurd hblank (by decide)
  · cases hq : Quote.ofChar? c with
    | none => rfl
    | some q =>
      rw [Quote.ofChar?_eq_some.1 hq] at hblank
      cases q <;> exact absurd hblank (by decide)

/-- A separator is settled, and the only code in it is white space. -/
theorem roles_of_separates {before sep : List Char} (h : Separates before sep) :
    Settled sep ∧ ∀ x ∈ annotate .code sep, x.2 = .code → isBlank x.1 = true := by
  unfold Settled
  cases h with
  | blanks _ blank =>
    obtain ⟨hroles, hafter⟩ := annotate_of_isPlain (isPlain_of_blank blank)
    refine ⟨hafter, ?_⟩
    rw [hroles]
    intro x hx _
    obtain ⟨c, hc, rfl⟩ := List.mem_map.1 hx
    exact blank c hc
  | @blockComment body closed _ =>
    obtain ⟨hroles, hafter⟩ := annotate_blockComment closed
    rw [annotate, Mode.after, hroles]
    refine ⟨hafter, ?_⟩
    intro x hx hcode
    have hblock : ∀ y ∈ body.map Role.inBlock, y.2 ≠ .code := by
      intro y hy
      obtain ⟨c, _, rfl⟩ := List.mem_map.1 hy
      unfold Role.inBlock
      split <;> simp
    simp only [List.mem_cons, List.mem_append, List.not_mem_nil, or_false] at hx
    rcases hx with rfl | rfl | hx | rfl | rfl
    · cases hcode
    · cases hcode
    · exact absurd hcode (hblock x hx)
    · cases hcode
    · cases hcode
  | lineComment closed _ =>
    obtain ⟨hroles, hafter⟩ := annotate_lineComment closed
    rw [annotate, Mode.after, hroles]
    refine ⟨hafter, ?_⟩
    intro x hx hcode
    simp only [List.mem_cons, List.mem_append, List.mem_map, List.not_mem_nil, or_false] at hx
    rcases hx with rfl | rfl | ⟨c, _, rfl⟩ | rfl <;> cases hcode
  | @literal q body closed =>
    obtain ⟨hroles, hafter⟩ := annotate_literal closed
    have alone : ¬ OpensComment q.char (body ++ [q.char]) := by
      rintro ⟨hq, _⟩
      cases q <;> exact absurd hq (by decide)
    have hmode : Mode.ofCode q.char = .literal q := by simp [Mode.ofCode]
    have hrole : Role.ofCode q.char = .quote := by simp [Role.ofCode]
    rw [annotate_code_cons alone, after_code_cons alone, hmode, hrole, hroles]
    refine ⟨hafter, ?_⟩
    intro x hx hcode
    simp only [List.mem_cons, List.mem_append, List.mem_map, List.not_mem_nil, or_false] at hx
    rcases hx with rfl | ⟨c, _, rfl⟩ | rfl <;> cases hcode

private theorem uncut_after {before sep : List Char} (h : Separates before sep) (after : List Char) :
    Uncut .code sep after := by
  rintro - hsuffix
  have hmem : ('/', Role.code) ∈ annotate .code sep := hsuffix.subset (by simp)
  exact absurd ((roles_of_separates h).2 _ hmem rfl) (by decide)

private theorem ne_nil_of_separates {before sep : List Char} (h : Separates before sep) : sep ≠ [] := by
  cases h with
  | blanks some _ => exact some
  | blockComment | lineComment | literal => simp

/-- What a separator leaves is not empty and breaks the text all over. -/
theorem clean_separator {before sep : List Char} (h : Separates before sep) :
    clean sep ≠ [] ∧ ∀ c ∈ clean sep, Breaks c := by
  refine ⟨clean_ne_nil (ne_nil_of_separates h), ?_⟩
  intro c hc
  rw [clean_eq_flatMap, List.mem_flatMap] at hc
  obtain ⟨x, hx, hc⟩ := hc
  by_cases hcode : x.2 = .code
  · obtain ⟨d, role⟩ := x
    obtain rfl : role = .code := hcode
    obtain rfl : c = d := by simpa [Role.kept] using hc
    exact .inl ((roles_of_separates h).2 _ hx rfl)
  · exact breaks_of_mem_kept hx hcode hc

/-! ### The law of separators -/

private theorem tokens_breaks_append {breaks : List Char} (h : ∀ c ∈ breaks, Breaks c) (after : List Char) :
    tokens (breaks ++ after) = tokens after := by
  induction breaks with
  | nil => rfl
  | cons b breaks ih =>
    rw [List.cons_append, tokens_break_cons (h b (by simp)), ih fun c hc => h c (by simp [hc])]

private theorem tokens_append_breaks {breaks : List Char} (some : breaks ≠ []) (h : ∀ c ∈ breaks, Breaks c)
    (before after : List Char) : tokens (before ++ (breaks ++ after)) = tokens before ++ tokens after := by
  rw [← tokens_breaks_append h after]
  obtain ⟨b, breaks, rfl⟩ := List.exists_cons_of_ne_nil some
  exact tokens_append_break (h b (by simp)) before (breaks ++ after)

theorem tokens_clean_append_separator {before sep : List Char} (settled : Settled before) (h : Separates before sep)
    (after : List Char) :
    tokens (clean (before ++ sep ++ after)) = tokens (clean before) ++ tokens (clean after) := by
  have hsep : clean (sep ++ after) = clean sep ++ clean after :=
    clean_append (roles_of_separates h).1 (uncut_after h after)
  have hbefore : clean (before ++ (sep ++ after)) = clean before ++ clean (sep ++ after) := by
    refine clean_append settled ?_
    intro hs
    obtain ⟨c, rest, rfl⟩ := List.exists_cons_of_ne_nil (ne_nil_of_separates h)
    exact uncut_before h hs
  obtain ⟨some, breaks⟩ := clean_separator h
  rw [List.append_assoc, hbefore, hsep, tokens_append_breaks some breaks]

/-- A settled text, a separator and any text are analysed as the two texts apart: the tokens stand in a row and the
counts add up, so that nothing else of the analysis depends on the separator. -/
theorem analysis_append_separator {before sep : List Char} (settled : Settled before) (h : Separates before sep)
    (after : List Char) :
    let whole := Analysis.ofSource (before ++ sep ++ after)
    let first := Analysis.ofSource before
    let second := Analysis.ofSource after
    whole.tokens = first.tokens ++ second.tokens ∧
      whole = .ofTokens (first.tokens ++ second.tokens) ∧
      (whole.tokenCount < UInt32.size →
        whole.keywords.IsSum first.keywords second.keywords ∧ whole.operators.IsSum first.operators second.operators) := by
  intro whole first second
  have htokens : whole.tokens = first.tokens ++ second.tokens := tokens_clean_append_separator settled h after
  have hwhole : whole = .ofTokens (first.tokens ++ second.tokens) := congrArg Analysis.ofTokens htokens
  refine ⟨htokens, hwhole, ?_⟩
  intro few
  have few : (first.tokens ++ second.tokens).length < UInt32.size := by
    rw [← htokens]
    exact few
  rw [hwhole]
  exact ⟨Tally.isSum_ofSlots _ _ few, Tally.isSum_ofSlots _ _ few⟩

/-- Two signs on the sides of a comment stay two, and the quote in the comment opens no literal. -/
theorem analysis_append_comment_of_quote :
    Settled "a =".toList ∧ Separates "a =".toList "/*\"*/".toList ∧
      (Analysis.ofSource "a =/*\"*/= b".toList).tokens = ["a", "=", "=", "b"].map String.toList ∧
      (Analysis.ofSource "a =/*\"*/= b".toList).operators.IsSum (Analysis.ofSource "a =".toList).operators
        (Analysis.ofSource "= b".toList).operators := by
  have settled : Settled "a =".toList := rfl
  have separates : Separates "a =".toList "/*\"*/".toList :=
    @Separates.blockComment _ ['"'] (by decide) (by decide)
  obtain ⟨htokens, -, hsum⟩ := analysis_append_separator settled separates "= b".toList
  refine ⟨settled, separates, ?_, (hsum ?_).2⟩
  · refine htokens.trans ?_
    decide +kernel
  · decide +kernel

end Likeness
