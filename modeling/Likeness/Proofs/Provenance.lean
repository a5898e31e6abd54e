import Likeness.Analysis
import Likeness.Proofs.Cleaning
import Likeness.Proofs.Lexing
import Mathlib.Data.List.Chain

/-!
# Where tokens come from

Every token stands in the source text as it is, outside comments and literals.

* `Traced` says that tokens are found at given stretches of an annotated text, all of it code, in order and apart;
* `exists_traced` finds the stretches: a piece of the cleaned text is traced back to the characters that it was kept
  from, and since whatever is kept of a comment or literal breaks the text, a token was kept from code in a row;
* `tokens_provenance` is the law for the whole analysis.
-/

namespace Likeness

/-- The positions of a text from `start` on, up to `stop` but without it. -/
structure Span where
  start : Nat
  stop : Nat
  deriving DecidableEq, Repr

namespace Span

/-- The part of a text that lies in a span. -/
def of (s : Span) (text : List Char) : List Char :=
  (text.drop s.start).take (s.stop - s.start)

/-- The same stretch with something put before the text. -/
def shift (n : Nat) (s : Span) : Span :=
  ⟨n + s.start, n + s.stop⟩

theorem of_shift {before text : List Char} {n : Nat} (h : before.length = n) (s : Span) :
    (s.shift n).of (before ++ text) = s.of text := by
  subst h
  unfold of shift
  rw [List.drop_length_add_append, Nat.add_sub_add_left]

end Span

/-- The tokens stand at the spans of an annotated text, which lie apart and in order and hold nothing but code. -/
structure Traced (roles : List (Char × Role)) (spans : List Span) (stream : List Token) : Prop where
  texts : stream = spans.map (·.of (roles.map Prod.fst))
  ordered : spans.Pairwise fun s t => s.stop ≤ t.start
  proper : ∀ s ∈ spans, s.start < s.stop ∧ s.stop ≤ roles.length
  code : ∀ s ∈ spans, ∀ i, s.start ≤ i → i < s.stop → ∃ c, roles[i]? = some (c, .code)

namespace Traced

variable {roles : List (Char × Role)} {spans : List Span} {stream : List Token}

theorem nil (roles : List (Char × Role)) : Traced roles [] [] := by
  refine ⟨rfl, .nil, ?_, ?_⟩ <;> simp

/-- Tokens stay traced if something is put before the text. -/
theorem shift (h : Traced roles spans stream) (before : List (Char × Role)) :
    Traced (before ++ roles) (spans.map (·.shift before.length)) stream := by
  refine ⟨?_, ?_, ?_, ?_⟩
  · rw [h.texts, List.map_map, List.map_append]
    refine List.map_congr_left fun s _ => ?_
    exact (Span.of_shift (by simp) s).symm
  · rw [List.pairwise_map]
    refine h.ordered.imp fun hst => ?_
    simp only [Span.shift]
    omega
  · intro s hs
    obtain ⟨t, ht, rfl⟩ := List.mem_map.1 hs
    have := h.proper t ht
    simp only [Span.shift, List.length_append]
    omega
  · intro s hs i hle hlt
    obtain ⟨t, ht, rfl⟩ := List.mem_map.1 hs
    simp only [Span.shift] at hle hlt
    rw [List.getElem?_append_right (by omega)]
    exact h.code t ht _ (by omega) (by omega)

/-- One more token may stand before those that are traced. -/
theorem cons (h : Traced roles spans stream) {t : Token} (some : t ≠ []) (before : List (Char × Role)) :
    Traced (before ++ (t.map (·, Role.code) ++ roles))
      (⟨before.length, before.length + t.length⟩ :: (spans.map (·.shift t.length)).map (·.shift before.length))
      (t :: stream) := by
  have hpos : 0 < t.length := List.length_pos_iff.2 some
  have hrest := (h.shift (t.map (·, Role.code))).shift before
  rw [List.length_map] at hrest
  refine ⟨?_, ?_, ?_, ?_⟩
  · rw [List.map_cons, ← hrest.texts]
    congr 1
    have hfst : (t.map (·, Role.code)).map Prod.fst = t := by
      rw [List.map_map]
      exact List.map_id t
    unfold Span.of
    rw [List.map_append, List.map_append, hfst, ← List.length_map (f := Prod.fst), List.drop_left, Nat.add_sub_cancel_left,
      List.take_left]
  · rw [List.pairwise_cons]
    refine ⟨?_, hrest.ordered⟩
    intro s hs
    rw [List.map_map] at hs
    obtain ⟨u, _, rfl⟩ := List.mem_map.1 hs
    simp only [Function.comp, Span.shift]
    omega
  · intro s hs
    rcases List.mem_cons.1 hs with rfl | hs
    · simp only [List.length_append, List.length_map]
      omega
    · exact hrest.proper s hs
  · intro s hs i hle hlt
    rcases List.mem_cons.1 hs with rfl | hs
    · simp only at hle hlt
      rw [List.getElem?_append_right hle, List.getElem?_append_left (by simp; omega), List.getElem?_map,
        List.getElem?_eq_getElem (by omega)]
      exact ⟨_, rfl⟩
    · exact hrest.code s hs i hle hlt

end Traced

/-! ### From a piece of the cleaned text back to its characters -/

/-- A character that is code and whatever follows it leave a mark each: nothing is dropped silently after code. -/
def Marks (x y : Char × Role) : Prop :=
  x.2 = .code → Role.kept y ≠ []

private theorem kept_head_code {text : List Char} : ∀ y ∈ (annotate .code text).head?, Role.kept y ≠ [] := by
  intro y hy
  cases text with
  | nil => simp [annotate] at hy
  | cons c text =>
    obtain ⟨role, rest, hroles, hkept⟩ := exists_annotate_code_cons c text
    rw [hroles] at hy
    obtain rfl : (c, role) = y := by simpa using hy
    exact hkept

/-- Between two characters of code that are both kept, nothing is dropped without a mark. -/
theorem isChain_annotate (mode : Mode) (text : List Char) : (annotate mode text).IsChain Marks := by
  fun_induction annotate mode text with
  | case1 => exact .nil
  | case2 text ih | case3 text ih | case8 text ih | case11 q c text ih =>
    refine List.isChain_cons.2 ⟨?_, List.isChain_cons.2 ⟨?_, ih⟩⟩ <;> intro y _ hcode <;> cases hcode
  | case4 c text _ _ ih =>
    refine List.isChain_cons.2 ⟨?_, ih⟩
    intro y hy hcode
    have hmode : Mode.ofCode c = .code := by
      unfold Mode.ofCode
      cases hq : Quote.ofChar? c with
      | none => rfl
      | some q => simp [Role.ofCode, hq] at hcode
    rw [hmode] at hy
    exact kept_head_code y hy
  | case5 text ih | case7 text ih | case6 c text _ ih | case9 c text _ _ ih | case12 q text _ _ ih
  | case13 q c text _ _ _ ih =>
    refine List.isChain_cons.2 ⟨?_, ih⟩
    intro y _ hcode
    cases hcode
  | case10 q => exact .singleton _

private theorem kept_eq_nil_or_singleton (x : Char × Role) : Role.kept x = [] ∨ ∃ c, Role.kept x = [c] := by
  obtain ⟨c, role⟩ := x
  cases role <;> simp [Role.kept]

/-- Cutting what is kept cuts what it was kept from. -/
private theorem exists_append_of_kept {roles : List (Char × Role)} {before after : List Char}
    (h : roles.flatMap Role.kept = before ++ after) :
    ∃ first second, roles = first ++ second ∧ first.flatMap Role.kept = before ∧ second.flatMap Role.kept = after := by
  induction roles generalizing before with
  | nil =>
    obtain ⟨rfl, rfl⟩ := List.append_eq_nil_iff.1 h.symm
    exact ⟨[], [], rfl, rfl, rfl⟩
  | cons x roles ih =>
    rw [List.flatMap_cons] at h
    cases before with
    | nil => exact ⟨[], x :: roles, rfl, rfl, by rw [List.flatMap_cons, h]; rfl⟩
    | cons b before =>
      rcases kept_eq_nil_or_singleton x with hx | ⟨c, hx⟩
      · rw [hx, List.nil_append] at h
        obtain ⟨first, second, rfl, hfirst, hsecond⟩ := ih h
        exact ⟨x :: first, second, rfl, by rw [List.flatMap_cons, hx, hfirst]; rfl, hsecond⟩
      · rw [hx, List.singleton_append, List.cons_append, List.cons.injEq] at h
        obtain ⟨rfl, h⟩ := h
        obtain ⟨first, second, rfl, hfirst, hsecond⟩ := ih h
        exact ⟨x :: first, second, rfl, by rw [List.flatMap_cons, hx, hfirst]; rfl, hsecond⟩

/-- All that is kept of what is not code breaks the text. -/
def BreaksOutsideCode (roles : List (Char × Role)) : Prop :=
  ∀ x ∈ roles, x.2 ≠ .code → ∀ c ∈ Role.kept x, Breaks c

private theorem eq_code_of_kept {x : Char × Role} {c : Char} (hx : Role.kept x = [c])
    (breaks : x.2 ≠ .code → ∀ d ∈ Role.kept x, Breaks d) (hc : ¬ Breaks c) : x = (c, .code) := by
  obtain ⟨d, role⟩ := x
  have hrole : role = .code := by
    by_contra hne
    exact hc (breaks hne c (by simp [hx]))
  subst hrole
  simpa [Role.kept] using hx

/-- After code, unbroken text was kept from code in a row. -/
private theorem exists_code_run {x : Char × Role} {roles : List (Char × Role)} {run after : List Char}
    (hx : x.2 = .code) (chain : (x :: roles).IsChain Marks) (breaks : BreaksOutsideCode roles)
    (h : roles.flatMap Role.kept = run ++ after) (unbroken : ∀ c ∈ run, ¬ Breaks c) :
    ∃ rest, roles = run.map (·, Role.code) ++ rest ∧ rest.flatMap Role.kept = after := by
  induction run generalizing x roles with
  | nil => exact ⟨roles, rfl, h⟩
  | cons c run ih =>
    cases roles with
    | nil => simp at h
    | cons y roles =>
      rw [List.isChain_cons_cons] at chain
      rw [List.flatMap_cons] at h
      rcases kept_eq_nil_or_singleton y with hy | ⟨d, hy⟩
      · -- only before the first character of code can something be dropped without a mark
        exact absurd hy (chain.1 hx)
      · rw [hy, List.singleton_append, List.cons_append, List.cons.injEq] at h
        obtain ⟨rfl, h⟩ := h
        obtain rfl := eq_code_of_kept hy (breaks y (by simp)) (unbroken d (by simp))
        obtain ⟨rest, rfl, hrest⟩ :=
          ih rfl chain.2 (fun z hz => breaks z (by simp [hz])) h fun e he => unbroken e (by simp [he])
        exact ⟨rest, rfl, hrest⟩

/-- Unbroken text was kept from code in a row, perhaps after something that leaves no mark. -/
private theorem exists_code {roles : List (Char × Role)} {run after : List Char} (some : run ≠ [])
    (chain : roles.IsChain Marks) (breaks : BreaksOutsideCode roles) (h : roles.flatMap Role.kept = run ++ after)
    (unbroken : ∀ c ∈ run, ¬ Breaks c) :
    ∃ silent rest, roles = silent ++ (run.map (·, Role.code) ++ rest) ∧ rest.flatMap Role.kept = after := by
  obtain ⟨c, run, rfl⟩ := List.exists_cons_of_ne_nil some
  induction roles with
  | nil => simp at h
  | cons x roles ih =>
    rw [List.flatMap_cons] at h
    rcases kept_eq_nil_or_singleton x with hx | ⟨d, hx⟩
    · rw [hx, List.nil_append] at h
      obtain ⟨silent, rest, rfl, hrest⟩ := ih (List.isChain_cons.1 chain).2 (fun z hz => breaks z (by simp [hz])) h
      exact ⟨x :: silent, rest, rfl, hrest⟩
    · rw [hx, List.singleton_append, List.cons_append, List.cons.injEq] at h
      obtain ⟨rfl, h⟩ := h
      obtain rfl := eq_code_of_kept hx (breaks x (by simp)) (unbroken d (by simp))
      obtain ⟨rest, rfl, hrest⟩ := exists_code_run rfl chain (fun z hz => breaks z (by simp [hz])) h
        fun e he => unbroken e (by simp [he])
      exact ⟨[], rest, rfl, hrest⟩

/-! ### The tokens of a text -/

private theorem token?_eq_some {p : Piece} {t : Token} (h : p.token? = some t) : p.text = t := by
  unfold Piece.token? at h
  split at h
  · exact Option.some.inj h
  · cases h

/-- The tokens of what is kept are traced to the characters that they were kept from. -/
theorem exists_traced {roles : List (Char × Role)} (chain : roles.IsChain Marks) (breaks : BreaksOutsideCode roles) :
    ∃ spans, Traced roles spans (tokens (roles.flatMap Role.kept)) := by
  rw [tokens_eq_filterMap]
  generalize htext : roles.flatMap Role.kept = text
  fun_induction pieces text generalizing roles with
  | case1 => exact ⟨[], .nil roles⟩
  | case2 c text piece =>
    rename_i ih
    obtain ⟨more, hmore, happend⟩ := firstPiece_eq_cons c text
    have hsplit : roles.flatMap Role.kept =
        (firstPiece c text).text ++ text.drop ((firstPiece c text).text.length - 1) := by
      rw [htext, hmore, List.cons_append, List.length_cons, Nat.add_sub_cancel, happend]
    cases htoken : (firstPiece c text).token? with
    | none =>
      -- what the piece was kept from may be anything, and is skipped
      rw [List.filterMap_cons_none htoken]
      obtain ⟨first, second, rfl, -, hsecond⟩ := exists_append_of_kept hsplit
      obtain ⟨spans, hspans⟩ := ih (List.isChain_append.1 chain).2.1 (fun x hx => breaks x (by simp [hx])) hsecond
      exact ⟨_, hspans.shift first⟩
    | some t =>
      rw [List.filterMap_cons_some htoken]
      have hlexeme : IsLexeme t := by
        refine @isLexeme_of_mem_tokens (c :: text) _ ?_
        rw [tokens_eq_filterMap, pieces_cons]
        exact List.mem_filterMap.2 ⟨_, List.mem_cons_self, htoken⟩
      obtain rfl := token?_eq_some htoken
      obtain ⟨silent, rest, rfl, hrest⟩ := exists_code (ne_nil_of_isLexeme hlexeme) chain breaks hsplit
        fun d hd => not_breaks_of_mem_lexeme hlexeme hd
      have hchain : rest.IsChain Marks := (List.isChain_append.1 (List.isChain_append.1 chain).2.1).2.1
      obtain ⟨spans, hspans⟩ := ih hchain (fun x hx => breaks x (by simp [hx])) hrest
      exact ⟨_, hspans.cons (ne_nil_of_isLexeme hlexeme) silent⟩

/-- The character at a position of a text is copied while the text is being read in the mode of code. -/
def CopiedAsCode (text : List Char) (i : Nat) : Prop :=
  Mode.after .code (text.take i) = .code ∧ ∃ c, text[i]? = some c ∧ (annotate .code text)[i]? = some (c, .code)

/-- Each token of a source stands in it as it is, in the order of the tokens and apart from the others, and all its
characters are copied as code. -/
theorem tokens_provenance (source : List Char) :
    ∃ spans : List Span,
      (Analysis.ofSource source).tokens = spans.map (·.of source) ∧
      (∀ s ∈ spans, s.start < s.stop ∧ s.stop ≤ source.length) ∧
      spans.Pairwise (fun s t => s.stop ≤ t.start) ∧
      ∀ s ∈ spans, ∀ i, s.start ≤ i → i < s.stop → CopiedAsCode source i := by
  have hfst := map_fst_annotate .code source
  obtain ⟨spans, h⟩ := exists_traced (isChain_annotate .code source) fun x hx hcode c hc =>
    breaks_of_mem_kept hx hcode hc
  rw [← clean_eq_flatMap] at h
  refine ⟨spans, ?_, ?_, h.ordered, ?_⟩
  · have htexts := h.texts
    rw [hfst] at htexts
    exact htexts
  · intro s hs
    rw [← hfst, List.length_map]
    exact h.proper s hs
  · intro s hs i hle hlt
    obtain ⟨c, hc⟩ := h.code s hs i hle hlt
    refine ⟨after_take_of_role_code hc, c, ?_, hc⟩
    rw [← hfst, List.getElem?_map, hc]
    rfl

end Likeness
