import Likeness.Proofs.Classes

/-!
# Cutting a text into tokens

* (longest match) `longestOperator` finds the longest operator that a text starts with, within the window
  (`longestOperator_eq_some_iff`);
* (breaks) no piece reaches over white space or a quote, so the tokens before and after are found apart
  (`tokens_append_break`, `tokens_break_cons`);
* (lexemes) every token is a word or an operator within the window (`isLexeme_of_mem_tokens`), and each of these is cut
  into itself alone (`tokens_of_isLexeme`).
-/

namespace Likeness

/-! ### The longest operator -/

private theorem isPrefix_take {op text : List Char} {n : Nat} (h : op <+: text) (hn : op.length ≤ n) :
    op <+: text.take n := by
  rw [List.prefix_take_iff]
  exact ⟨h, hn⟩

/-- `longestOperator` finds the longest of the operators that a text starts with and that are within the window. -/
theorem longestOperator_eq_some_iff {text op : List Char} {width : Nat} :
    longestOperator text width = some op ↔
      op ∈ operators ∧ op <+: text ∧ op.length ≤ width ∧
        ∀ other ∈ operators, other <+: text → other.length ≤ width → other.length ≤ op.length := by
  induction width with
  | zero =>
    constructor
    · intro h
      cases h
    · rintro ⟨hop, _, hlen, _⟩
      rw [List.eq_nil_of_length_eq_zero (Nat.le_zero.1 hlen)] at hop
      exact absurd hop (by decide)
  | succ width ih =>
    unfold longestOperator
    by_cases htake : text.take (width + 1) ∈ operators
    · rw [if_pos htake, Option.some.injEq]
      constructor
      · rintro rfl
        refine ⟨htake, List.take_prefix _ _, List.length_take_le _ _, ?_⟩
        intro other _ hstart hlen
        exact (isPrefix_take hstart hlen).length_le
      · rintro ⟨_, hstart, hlen, hlongest⟩
        have hle := hlongest _ htake (List.take_prefix _ _) (List.length_take_le _ _)
        exact ((isPrefix_take hstart hlen).eq_of_length_le hle).symm
    · -- an operator as wide as the whole window would be the part of the text that was just tried
      have shorter {other : List Char} (hother : other ∈ operators) (hstart : other <+: text) :
          other.length ≤ width + 1 ↔ other.length ≤ width := by
        constructor
        · intro hlen
          have : other.length ≠ width + 1 := by
            intro heq
            rw [List.prefix_iff_eq_take.1 hstart, heq] at hother
            exact htake hother
          omega
        · omega
      rw [if_neg htake, ih]
      constructor
      · rintro ⟨hop, hstart, hlen, hlongest⟩
        refine ⟨hop, hstart, (shorter hop hstart).2 hlen, ?_⟩
        intro other hother hotherStart hotherLen
        exact hlongest other hother hotherStart ((shorter hother hotherStart).1 hotherLen)
      · rintro ⟨hop, hstart, hlen, hlongest⟩
        refine ⟨hop, hstart, (shorter hop hstart).1 hlen, ?_⟩
        intro other hother hotherStart hotherLen
        exact hlongest other hother hotherStart ((shorter hother hotherStart).2 hotherLen)

/-! ### Breaks -/

private theorem takeWhile_append_of_not {p : Char → Bool} {b : Char} (h : p b = false) (text more : List Char) :
    (text ++ b :: more).takeWhile p = text.takeWhile p := by
  induction text with
  | nil => simp [h]
  | cons c text ih => by_cases hc : p c <;> simp [hc, ih]

private theorem isPrefix_append_break {op text more : List Char} {b : Char} (hb : b ∉ op) :
    op <+: text ++ b :: more ↔ op <+: text := by
  constructor
  · intro h
    rcases List.prefix_or_prefix_of_prefix h (List.prefix_append text (b :: more)) with h' | ⟨rest, hrest⟩
    · exact h'
    · -- the operator would start with the whole text and the break after it
      subst hrest
      rw [List.prefix_append_right_inj] at h
      cases rest with
      | nil => simp
      | cons c rest =>
        rw [List.cons_prefix_cons] at h
        exact absurd (by simp [h.1]) hb
  · exact fun h => h.trans (List.prefix_append _ _)

theorem longestOperator_append_break {b : Char} (hb : Breaks b) (text more : List Char) (width : Nat) :
    longestOperator (text ++ b :: more) width = longestOperator text width := by
  ext op
  rw [longestOperator_eq_some_iff, longestOperator_eq_some_iff]
  have key {other : Token} (hother : other ∈ operators) : other <+: text ++ b :: more ↔ other <+: text :=
    isPrefix_append_break (notMem_operator_of_breaks hb hother)
  constructor
  · rintro ⟨hop, hstart, hlen, hlongest⟩
    exact ⟨hop, (key hop).1 hstart, hlen, fun other hother h => hlongest other hother ((key hother).2 h)⟩
  · rintro ⟨hop, hstart, hlen, hlongest⟩
    exact ⟨hop, (key hop).2 hstart, hlen, fun other hother h => hlongest other hother ((key hother).1 h)⟩

theorem firstPiece_append_break {b : Char} (hb : Breaks b) (c : Char) (text more : List Char) :
    firstPiece c (text ++ b :: more) = firstPiece c text := by
  unfold firstPiece
  rw [takeWhile_append_of_not (continuesWord_of_breaks hb), takeWhile_append_of_not (continuesNumber_of_breaks hb),
    ← List.cons_append, longestOperator_append_break hb]

theorem pieces_cons (c : Char) (text : List Char) :
    pieces (c :: text) = firstPiece c text :: pieces (text.drop ((firstPiece c text).text.length - 1)) := by
  rw [pieces]

/-- A break ends the piece before it. -/
theorem pieces_append_break {b : Char} (hb : Breaks b) (text more : List Char) :
    pieces (text ++ b :: more) = pieces text ++ pieces (b :: more) := by
  fun_induction pieces text with
  | case1 => rfl
  | case2 c text piece ih =>
    obtain ⟨rest, hrest, hdrop⟩ := firstPiece_eq_cons c text
    -- the first piece ends before the break, so what is left after it still has the break at its place
    have hlen : (firstPiece c text).text.length - 1 ≤ text.length := by
      have := congrArg List.length hdrop
      rw [hrest]
      simp only [List.length_append, List.length_cons] at this ⊢
      omega
    rw [List.cons_append, pieces_cons, firstPiece_append_break hb, List.drop_append_of_le_length hlen, ih,
      List.cons_append]

/-- The text of a piece, if the piece is a token. -/
def Piece.token? (p : Piece) : Option Token :=
  if p.kind = .word ∨ p.kind = .operator then some p.text else none

theorem tokens_eq_filterMap (text : List Char) : tokens text = (pieces text).filterMap Piece.token? := rfl

/-- The tokens before a break are found without what follows. -/
theorem tokens_append_break {b : Char} (hb : Breaks b) (text more : List Char) :
    tokens (text ++ b :: more) = tokens text ++ tokens (b :: more) := by
  rw [tokens_eq_filterMap, pieces_append_break hb, List.filterMap_append, ← tokens_eq_filterMap, ← tokens_eq_filterMap]

private theorem longestOperator_of_breaks {b : Char} (hb : Breaks b) (more : List Char) (width : Nat) :
    longestOperator (b :: more) width = none := by
  rw [← List.nil_append (b :: more), longestOperator_append_break hb]
  induction width with
  | zero => rfl
  | succ width ih => simpa [longestOperator, show [] ∉ operators by decide] using ih

/-- A break is a piece of its own, and no token. -/
theorem tokens_break_cons {b : Char} (hb : Breaks b) (more : List Char) : tokens (b :: more) = tokens more := by
  have hpiece : (firstPiece b more).text = [b] ∧ (firstPiece b more).token? = none := by
    have hdigit : b.isDigit = false := by
      have := continuesNumber_of_breaks hb
      simp only [continuesNumber, Bool.or_eq_false_iff] at this
      exact this.1
    unfold firstPiece
    split
    · exact ⟨rfl, rfl⟩
    · rw [startsWord_of_breaks hb, hdigit, longestOperator_of_breaks hb]
      exact ⟨rfl, rfl⟩
  rw [tokens_eq_filterMap, pieces_cons, List.filterMap_cons_none hpiece.2, hpiece.1, tokens_eq_filterMap]
  rfl

/-! ### Lexemes -/

/-- A word: a character that can start one, and characters that can go on with it. -/
def IsWord : Token → Prop
  | [] => False
  | c :: rest => startsWord c = true ∧ ∀ d ∈ rest, continuesWord d = true

/-- What can be a token of a text: a word, or an operator within the window. -/
def IsLexeme (t : Token) : Prop :=
  IsWord t ∨ (t ∈ operators ∧ t.length ≤ operatorWindow)

private theorem isLexeme_firstPiece {c : Char} {text : List Char} {t : Token}
    (h : (firstPiece c text).token? = some t) : IsLexeme t := by
  unfold firstPiece at h
  split at h
  · simp [Piece.token?] at h
  · split at h
    · next hstart =>
      simp only [Piece.token?, true_or, ↓reduceIte, Option.some.injEq] at h
      subst h
      exact .inl ⟨hstart, fun d hd => List.all_eq_true.1 List.all_takeWhile d hd⟩
    · split at h
      · simp [Piece.token?] at h
      · split at h
        · next op hop =>
          simp only [Piece.token?, or_true, ↓reduceIte, Option.some.injEq] at h
          subst h
          obtain ⟨hmem, _, hlen, _⟩ := longestOperator_eq_some_iff.1 hop
          exact .inr ⟨hmem, hlen⟩
        · simp [Piece.token?] at h

/-- Every token is a word or an operator within the window. -/
theorem isLexeme_of_mem_tokens {text : List Char} {t : Token} (h : t ∈ tokens text) : IsLexeme t := by
  rw [tokens_eq_filterMap] at h
  fun_induction pieces text with
  | case1 => simp at h
  | case2 c text piece ih =>
    rw [List.mem_filterMap] at h
    obtain ⟨p, hp, ht⟩ := h
    rcases List.mem_cons.1 hp with rfl | hp
    · exact isLexeme_firstPiece ht
    · exact ih (List.mem_filterMap.2 ⟨p, hp, ht⟩)

theorem not_isBlank_of_startsWord {c : Char} (h : startsWord c = true) : isBlank c = false := by
  rw [Bool.eq_false_iff]
  intro hblank
  rw [startsWord_of_breaks (.inl hblank)] at h
  cases h

/-- Each operator within the window is the first piece of its own text. -/
private theorem firstPiece_operators : ∀ op ∈ operators, op.length ≤ operatorWindow →
    op.head?.all (firstPiece · op.tail = ⟨.operator, op⟩) = true := by
  decide +kernel

private theorem takeWhile_of_all {p : Char → Bool} {text : List Char} (h : ∀ c ∈ text, p c = true) :
    text.takeWhile p = text := by
  have : (text ++ []).takeWhile p = text ++ [].takeWhile p := List.takeWhile_append_of_pos h
  simpa using this

private theorem firstPiece_of_isLexeme {c : Char} {rest : List Char} (h : IsLexeme (c :: rest)) :
    (firstPiece c rest).text = c :: rest ∧ (firstPiece c rest).token? = some (c :: rest) := by
  rcases h with ⟨hstart, hrest⟩ | ⟨hop, hlen⟩
  · have hpiece : firstPiece c rest = ⟨.word, c :: rest⟩ := by
      unfold firstPiece
      rw [not_isBlank_of_startsWord hstart, hstart, takeWhile_of_all hrest]
      rfl
    rw [hpiece]
    exact ⟨rfl, rfl⟩
  · have hpiece : firstPiece c rest = ⟨.operator, c :: rest⟩ := of_decide_eq_true (firstPiece_operators _ hop hlen)
    rw [hpiece]
    exact ⟨rfl, rfl⟩

theorem ne_nil_of_isLexeme {t : Token} (h : IsLexeme t) : t ≠ [] := by
  rintro rfl
  rcases h with h | ⟨h, _⟩
  · exact h
  · exact absurd h (by decide)

/-- A lexeme is cut into itself alone. -/
theorem tokens_of_isLexeme {t : Token} (h : IsLexeme t) : tokens t = [t] := by
  obtain ⟨c, rest, rfl⟩ := List.exists_cons_of_ne_nil (ne_nil_of_isLexeme h)
  obtain ⟨htext, htoken⟩ := firstPiece_of_isLexeme h
  rw [tokens_eq_filterMap, pieces_cons, List.filterMap_cons_some htoken, htext]
  simp [pieces]

/-- No lexeme holds a break. -/
theorem not_breaks_of_mem_lexeme {t : Token} (h : IsLexeme t) {c : Char} (hc : c ∈ t) : ¬ Breaks c := by
  intro hb
  rcases h with h | ⟨h, _⟩
  · have hword : continuesWord c = true := by
      cases t with
      | nil => exact h.elim
      | cons d rest =>
        rcases List.mem_cons.1 hc with rfl | hc
        · exact continuesWord_of_startsWord h.1
        · exact h.2 c hc
    rw [continuesWord_of_breaks hb] at hword
    cases hword
  · exact notMem_operator_of_breaks hb h hc

end Likeness
