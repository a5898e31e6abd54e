import Likeness.Proofs.Lexing
import Mathlib.Logic.ExistsUnique

/-!
# The lexical grammar

A cut of a text divides it from left to right into pieces, each of which is what its kind asks for at its place: white
space, a word, a number, the longest operator, or a stray character where nothing else can start.

* (pieces) `Shaped` and `Piece.Fits` say what a piece is in front of the text that follows it; `fits_iff` says that the
  first piece of a text is the only one that fits there.
* (cuts) `IsCut` says what a cut is; a text has one (`isCut_pieces`) and no other (`eq_pieces_of_isCut`).
* `existsUnique_isCut` puts together what the tokens of a text are.
-/

namespace Likeness

/-! ### Pieces -/

/-- A class of characters stops in front of a text that does not go on with it. -/
def Stops (p : Char → Bool) (rest : List Char) : Prop :=
  ∀ c ∈ rest.head?, p c = false

/-- A piece with a shape of its own, in front of the rest of the text. -/
inductive Shaped : Piece → List Char → Prop where
  | blank {c : Char} {rest : List Char} (start : isBlank c = true) : Shaped ⟨.blank, [c]⟩ rest
  | word {c : Char} {run rest : List Char} (start : startsWord c = true) (inside : ∀ d ∈ run, continuesWord d = true)
      (stop : Stops continuesWord rest) : Shaped ⟨.word, c :: run⟩ rest
  | number {c : Char} {run rest : List Char} (start : c.isDigit = true) (inside : ∀ d ∈ run, continuesNumber d = true)
      (stop : Stops continuesNumber rest) : Shaped ⟨.number, c :: run⟩ rest
  | operator {op rest : List Char} (mem : op ∈ operators) (short : op.length ≤ 3)
      (longest : ∀ other ∈ operators, other <+: op ++ rest → other.length ≤ 3 → other.length ≤ op.length) :
      Shaped ⟨.operator, op⟩ rest

/-- A piece that may stand in front of the rest of the text.  A stray character may where no piece with a shape can
start. -/
inductive Piece.Fits : Piece → List Char → Prop where
  | shaped {p : Piece} {rest : List Char} (h : Shaped p rest) : Fits p rest
  | stray {c : Char} {rest : List Char} (h : ∀ p after, p.text ++ after = c :: rest → ¬ Shaped p after) :
      Fits ⟨.stray, [c]⟩ rest

private theorem takeWhile_append_of_stops {p : Char → Bool} {run rest : List Char} (inside : ∀ d ∈ run, p d = true)
    (stop : Stops p rest) : (run ++ rest).takeWhile p = run := by
  rw [List.takeWhile_append_of_pos inside]
  cases rest with
  | nil => simp
  | cons d rest => simp [stop d rfl]

private theorem stops_of_takeWhile_append {p : Char → Bool} {text rest : List Char}
    (h : text.takeWhile p ++ rest = text) : Stops p rest := by
  have hrest : rest = text.dropWhile p := by
    rwa [← List.append_cancel_left_eq (text.takeWhile p), List.takeWhile_append_dropWhile]
  have hhead := List.head?_dropWhile_not p text
  rw [← hrest] at hhead
  intro d hd
  rw [Option.mem_def.1 hd] at hhead
  simpa using hhead

private theorem head_operators :
    ∀ op ∈ operators, op.head?.any (fun c => !isBlank c && !startsWord c && !c.isDigit) = true := by
  decide +kernel

/-- An operator starts with a character that starts no other kind of piece. -/
private theorem exists_cons_of_mem_operators {op : Token} (h : op ∈ operators) :
    ∃ c more, op = c :: more ∧ isBlank c = false ∧ startsWord c = false ∧ c.isDigit = false := by
  have hhead := head_operators op h
  cases op with
  | nil => simp at hhead
  | cons c more => exact ⟨c, more, rfl, by simpa [and_assoc] using hhead⟩

/-- A piece with a shape is the first piece of the text that starts with it. -/
private theorem firstPiece_of_shaped {p : Piece} {rest : List Char} (h : Shaped p rest) :
    p.kind ≠ .stray ∧ ∃ c more, p.text ++ rest = c :: more ∧ firstPiece c more = p := by
  cases h with
  | @blank c _ start =>
    refine ⟨by simp, c, rest, rfl, ?_⟩
    rw [firstPiece, if_pos start]
  | @word c run _ start inside stop =>
    refine ⟨by simp, c, run ++ rest, rfl, ?_⟩
    have hblank : isBlank c = false := not_isBlank_of_startsWord start
    rw [firstPiece, hblank, start, takeWhile_append_of_stops inside stop]
    rfl
  | @number c run _ start inside stop =>
    refine ⟨by simp, c, run ++ rest, rfl, ?_⟩
    rw [firstPiece, isBlank_of_isDigit start, startsWord_of_isDigit start, start, takeWhile_append_of_stops inside stop]
    rfl
  | @operator op _ mem short longest =>
    obtain ⟨c, more, rfl, hblank, hword, hdigit⟩ := exists_cons_of_mem_operators mem
    refine ⟨by simp, c, more ++ rest, rfl, ?_⟩
    have hlongest : longestOperator (c :: (more ++ rest)) operatorWindow = some (c :: more) :=
      longestOperator_eq_some_iff.2 ⟨mem, List.prefix_append _ _, short, longest⟩
    rw [firstPiece, hblank, hword, hdigit, hlongest]
    rfl

/-- The first piece of a text has a shape, unless it is a stray character. -/
private theorem shaped_of_firstPiece_eq {c : Char} {text rest : List Char} {p : Piece} (hp : firstPiece c text = p)
    (h : p.text ++ rest = c :: text) : Shaped p rest ∨ p = ⟨.stray, [c]⟩ := by
  unfold firstPiece at hp
  split at hp
  · next hblank =>
    subst hp
    exact .inl (.blank hblank)
  · split at hp
    · next hword =>
      subst hp
      have hrun := (List.cons.inj h).2
      exact .inl (.word hword (List.all_eq_true.1 List.all_takeWhile) (stops_of_takeWhile_append hrun))
    · split at hp
      · next hdigit =>
        subst hp
        have hrun := (List.cons.inj h).2
        exact .inl (.number hdigit (List.all_eq_true.1 List.all_takeWhile) (stops_of_takeWhile_append hrun))
      · split at hp
        · next op hop =>
          subst hp
          obtain ⟨mem, _, short, longest⟩ := longestOperator_eq_some_iff.1 hop
          rw [← h] at longest
          exact .inl (.operator mem short longest)
        · exact .inr hp.symm

/-- What fits in front of a text is the first piece of both together, and nothing else. -/
theorem fits_iff {p : Piece} {rest : List Char} :
    p.Fits rest ↔ ∃ c more, p.text ++ rest = c :: more ∧ firstPiece c more = p := by
  constructor
  · intro h
    cases h with
    | shaped h => exact (firstPiece_of_shaped h).2
    | @stray c _ h =>
      refine ⟨c, rest, rfl, ?_⟩
      obtain ⟨more, hmore, happend⟩ := firstPiece_eq_cons c rest
      have htext : (firstPiece c rest).text ++ rest.drop more.length = c :: rest := by
        rw [hmore, List.cons_append, happend]
      rcases shaped_of_firstPiece_eq rfl htext with hshaped | hstray
      · exact absurd hshaped (h _ _ htext)
      · exact hstray
  · rintro ⟨c, more, htext, hp⟩
    rcases shaped_of_firstPiece_eq hp htext with hshaped | rfl
    · exact .shaped hshaped
    · obtain rfl : rest = more := (List.cons.inj htext).2
      refine .stray fun p after hafter hshaped => ?_
      -- a piece with a shape would be the first one, and that is the stray character
      obtain ⟨hkind, d, tail, hcons, hfirst⟩ := firstPiece_of_shaped hshaped
      rw [hafter] at hcons
      obtain ⟨rfl, rfl⟩ := List.cons.inj hcons
      rw [← hfirst, hp] at hkind
      exact hkind rfl

/-! ### Cuts -/

/-- A cut of a text into pieces that fit where they stand. -/
inductive IsCut : List Piece → List Char → Prop where
  | nil : IsCut [] []
  | cons {p : Piece} {cut : List Piece} {rest : List Char} (fits : p.Fits rest) (cut_rest : IsCut cut rest) :
      IsCut (p :: cut) (p.text ++ rest)

/-- The pieces of a text are a cut of it. -/
theorem isCut_pieces (text : List Char) : IsCut (pieces text) text := by
  fun_induction pieces text with
  | case1 => exact .nil
  | case2 c text piece ih =>
    obtain ⟨more, hmore, happend⟩ := firstPiece_eq_cons c text
    have hpiece : piece.text = c :: more := hmore
    have htext : piece.text ++ text.drop (piece.text.length - 1) = c :: text := by
      rw [hpiece]
      simpa using happend
    have hcut := IsCut.cons (fits_iff.2 ⟨c, text, htext, rfl⟩) ih
    rwa [htext] at hcut

/-- A text has no other cut than its pieces. -/
theorem eq_pieces_of_isCut {cut : List Piece} {text : List Char} (h : IsCut cut text) : cut = pieces text := by
  induction h with
  | nil => simp [pieces]
  | @cons p cut rest fits _ ih =>
    obtain ⟨c, more, htext, hp⟩ := fits_iff.1 fits
    obtain ⟨run, hrun, _⟩ := firstPiece_eq_cons c more
    rw [hp] at hrun
    have hmore : run ++ rest = more := by
      rw [hrun] at htext
      exact (List.cons.inj htext).2
    have hrest : more.drop (p.text.length - 1) = rest := by
      rw [hrun, ← hmore]
      simp
    rw [htext, pieces_cons, hp, hrest, ih]

/-! ### Tokens -/

/-- A text can be cut in exactly one way, and its tokens are the words and operators of the cut.  So every token is a word
or an operator, none is empty or holds white space, and the one operator that is wider than the window is never found. -/
theorem existsUnique_isCut (text : List Char) :
    (∃! cut, IsCut cut text) ∧
    (∀ cut, IsCut cut text →
      tokens text = (cut.filter fun p => p.kind = .word ∨ p.kind = .operator).map Piece.text) ∧
    ∀ t ∈ tokens text,
      t ≠ [] ∧ (∀ c ∈ t, isBlank c = false) ∧ (IsWord t ∨ t ∈ operators) ∧ t ≠ ">>>=".toList := by
  refine ⟨⟨pieces text, isCut_pieces text, fun cut h => eq_pieces_of_isCut h⟩, ?_, ?_⟩
  · intro cut h
    rw [eq_pieces_of_isCut h, tokens, ← List.filterMap_eq_map, List.filterMap_filter]
    simp only [decide_eq_true_eq, Function.comp_apply]
  · intro t ht
    have hlexeme : IsLexeme t := isLexeme_of_mem_tokens ht
    refine ⟨ne_nil_of_isLexeme hlexeme, ?_, hlexeme.imp_right And.left, ?_⟩
    · intro c hc
      exact Bool.eq_false_iff.2 fun hblank => not_breaks_of_mem_lexeme hlexeme hc (.inl hblank)
    · rintro rfl
      rcases hlexeme with hword | ⟨_, hlen⟩
      · exact absurd hword.1 (by decide)
      · exact absurd hlen (by decide)

end Likeness
