import Likeness.Proofs.Separators
import Mathlib.Data.List.Infix

/-!
# The parts of a source text

A source text is made of characters of code, literals and comments.  What these are is said here without reading from left to
right in modes: by what stands inside them, and by what ends them.

* `Part.Fits` says which part may stand in front of the rest of a text, and `Divides` what a division into parts is.
* `exists_divides`: every text has a division.
* `annotate_of_divides`: reading a text gives its characters the roles that they have in the parts of a division.
-/

namespace Likeness

/-- A part of a source text. -/
inductive Part where
  /-- A character outside comments and literals. -/
  | code (c : Char)
  | literal (quote : Quote) (body : List Char) (closed : Bool)
  | lineComment (body : List Char) (closed : Bool)
  | blockComment (body : List Char) (closed : Bool)
  deriving DecidableEq, Repr

namespace Part

/-- The characters of a part and their roles. -/
def roles : Part → List (Char × Role)
  | code c => [(c, .code)]
  | literal q body closed =>
    (q.char, .quote) :: (body.map (·, .body) ++ if closed then [(q.char, .quote)] else [])
  | lineComment body closed =>
    ('/', .opener) :: ('/', .remark) :: (body.map (·, .remark) ++ if closed then [('\n', .lineEnd)] else [])
  | blockComment body closed =>
    ('/', .opener) :: ('*', .remark) ::
      (body.map Role.inBlock ++ if closed then [('*', .remark), ('/', .remark)] else [])

/-- What a part is written as. -/
def text (p : Part) : List Char :=
  p.roles.map Prod.fst

/-- A part that may stand in front of the rest of a text.  A part that is not closed may stand at the end only. -/
inductive Fits : Part → List Char → Prop where
  | code {c : Char} {rest : List Char} (notQuote : Quote.ofChar? c = none) (alone : ¬ OpensComment c rest) :
      Fits (.code c) rest
  | literal {q : Quote} {body rest : List Char} {closed : Bool} (inside : IsLiteralBody q body)
      (last : closed = true ∨ rest = []) : Fits (.literal q body closed) rest
  /-- A literal may be cut off after a backslash. -/
  | cutLiteral {q : Quote} {body : List Char} (inside : IsLiteralBody q body) :
      Fits (.literal q (body ++ ['\\']) false) []
  | lineComment {body rest : List Char} {closed : Bool} (inside : '\n' ∉ body) (last : closed = true ∨ rest = []) :
      Fits (.lineComment body closed) rest
  | blockComment {body rest : List Char} {closed : Bool} (inside : ¬ ['*', '/'] <:+: body)
      (last : closed = true ∨ rest = []) : Fits (.blockComment body closed) rest

end Part

/-- A division of a text into parts that fit where they stand. -/
inductive Divides : List Part → List Char → Prop where
  | nil : Divides [] []
  | cons {p : Part} {parts : List Part} {rest : List Char} (fits : p.Fits rest) (divides_rest : Divides parts rest) :
      Divides (p :: parts) (p.text ++ rest)

/-! ### Every text has a division -/

/-- A text goes on to the first place of a sign, or to its end. -/
private theorem exists_before_sign {sign : List Char} (some : sign ≠ []) (text : List Char) :
    ∃ body closed rest, ¬ sign <:+: body ∧ (closed = true ∨ rest = []) ∧
      text = body ++ (if closed then sign else []) ++ rest := by
  induction text with
  | nil => exact ⟨[], false, [], by simpa using some, .inr rfl, rfl⟩
  | cons c text ih =>
    by_cases hstart : sign <+: c :: text
    · obtain ⟨rest, hrest⟩ := hstart
      exact ⟨[], true, rest, by simpa using some, .inl rfl, hrest.symm⟩
    · obtain ⟨body, closed, rest, hbody, hlast, rfl⟩ := ih
      refine ⟨c :: body, closed, rest, fun hinfix => ?_, hlast, rfl⟩
      rcases List.infix_cons_iff.1 hinfix with hhere | hlater
      · refine hstart (hhere.trans ?_)
        rw [List.append_assoc, ← List.cons_append]
        exact List.prefix_append _ _
      · exact hbody hlater

/-- What follows the quote of a literal goes on to the next quote that is not escaped, or to the end. -/
private theorem exists_literal (q : Quote) : (text : List Char) →
    ∃ body closed rest, (Part.literal q body closed).Fits rest ∧
      text = body ++ (if closed then [q.char] else []) ++ rest
  | [] => ⟨[], false, [], .literal .nil (.inr rfl), rfl⟩
  | c :: text => by
    by_cases hescape : c = '\\'
    · subst hescape
      cases text with
      | nil => exact ⟨['\\'], false, [], .cutLiteral .nil, rfl⟩
      | cons d text =>
        obtain ⟨body, closed, rest, hfits, rfl⟩ := exists_literal q text
        refine ⟨'\\' :: d :: body, closed, rest, ?_, rfl⟩
        cases hfits with
        | literal inside last => exact .literal (.pair d inside) last
        | cutLiteral inside => exact .cutLiteral (.pair d inside)
    · by_cases hquote : c = q.char
      · exact ⟨[], true, text, .literal .nil (.inl rfl), by simp [hquote]⟩
      · obtain ⟨body, closed, rest, hfits, rfl⟩ := exists_literal q text
        refine ⟨c :: body, closed, rest, ?_, rfl⟩
        cases hfits with
        | literal inside last => exact .literal (.plain hquote hescape inside) last
        | cutLiteral inside => exact .cutLiteral (.plain hquote hescape inside)

private theorem text_literal (q : Quote) (body : List Char) (closed : Bool) :
    (Part.literal q body closed).text = q.char :: (body ++ if closed then [q.char] else []) := by
  cases closed <;> simp [Part.text, Part.roles, Function.comp_def]

private theorem text_lineComment (body : List Char) (closed : Bool) :
    (Part.lineComment body closed).text = '/' :: '/' :: (body ++ if closed then ['\n'] else []) := by
  cases closed <;> simp [Part.text, Part.roles, Function.comp_def]

private theorem text_blockComment (body : List Char) (closed : Bool) :
    (Part.blockComment body closed).text = '/' :: '*' :: (body ++ if closed then ['*', '/'] else []) := by
  cases closed <;> simp [Part.text, Part.roles, Role.inBlock, Function.comp_def]

/-- Some part fits at the start of a text. -/
private theorem exists_fits (c : Char) (text : List Char) :
    ∃ (p : Part) (rest : List Char), p.Fits rest ∧ c :: text = p.text ++ rest := by
  by_cases ho : OpensComment c text
  · obtain ⟨rfl, hhead | hhead⟩ := ho
    · obtain ⟨more, rfl⟩ := List.head?_eq_some_iff.1 hhead
      obtain ⟨body, closed, rest, hbody, hlast, rfl⟩ := @exists_before_sign ['\n'] (by simp) more
      have hinside : '\n' ∉ body := fun h => hbody ((List.singleton_infix_iff _ _).2 h)
      exact ⟨.lineComment body closed, rest, .lineComment hinside hlast, by simp [text_lineComment]⟩
    · obtain ⟨more, rfl⟩ := List.head?_eq_some_iff.1 hhead
      obtain ⟨body, closed, rest, hbody, hlast, rfl⟩ := @exists_before_sign ['*', '/'] (by simp) more
      exact ⟨.blockComment body closed, rest, .blockComment hbody hlast, by simp [text_blockComment]⟩
  · cases hq : Quote.ofChar? c with
    | none => exact ⟨.code c, text, .code hq ho, rfl⟩
    | some q =>
      obtain rfl := Quote.ofChar?_eq_some.1 hq
      obtain ⟨body, closed, rest, hfits, rfl⟩ := exists_literal q text
      exact ⟨.literal q body closed, rest, hfits, by simp [text_literal]⟩

private theorem text_ne_nil (p : Part) : p.text ≠ [] := by
  cases p <;> simp [Part.text, Part.roles]

theorem exists_divides (text : List Char) : ∃ parts, Divides parts text := by
  induction hlength : text.length using Nat.strongRecOn generalizing text with
  | _ n ih =>
    cases text with
    | nil => exact ⟨[], .nil⟩
    | cons c text =>
      obtain ⟨p, rest, hfits, htext⟩ := exists_fits c text
      have hpos : 0 < p.text.length := List.length_pos_iff.2 (text_ne_nil p)
      have hshort : rest.length < n := by
        rw [← hlength, htext, List.length_append]
        omega
      obtain ⟨parts, hparts⟩ := ih rest.length hshort rest rfl
      exact ⟨p :: parts, htext ▸ .cons hfits hparts⟩

/-! ### Reading a division -/

private theorem annotate_quote_cons (q : Quote) (text : List Char) :
    annotate .code (q.char :: text) = (q.char, .quote) :: annotate (.literal q) text := by
  have alone : ¬ OpensComment q.char text := by
    rintro ⟨hq, _⟩
    cases q <;> exact absurd hq (by decide)
  rw [annotate_code_cons alone]
  simp [Mode.ofCode, Role.ofCode]

/-- A part is read alone, whatever fits after it. -/
private theorem annotate_of_fits {p : Part} {rest : List Char} (h : p.Fits rest) :
    annotate .code (p.text ++ rest) = p.roles ++ annotate .code rest := by
  cases h with
  | @code c _ notQuote alone =>
    have hmode : Mode.ofCode c = .code := by simp [Mode.ofCode, notQuote]
    have hrole : Role.ofCode c = .code := by simp [Role.ofCode, notQuote]
    change annotate .code (c :: rest) = _
    rw [annotate_code_cons alone, hmode, hrole]
    rfl
  | @literal q body _ closed inside last =>
    rw [text_literal, List.cons_append, annotate_quote_cons, List.append_assoc,
      (annotate_literal_append inside _).1]
    rcases last with rfl | rfl
    · simp [Part.roles, annotate_literal_cons q.char_ne_escape]
    · cases closed <;> simp [Part.roles, annotate, annotate_literal_cons q.char_ne_escape]
  | @cutLiteral q body inside =>
    rw [text_literal, List.cons_append, annotate_quote_cons, List.append_assoc, List.append_assoc,
      (annotate_literal_append inside _).1]
    simp [Part.roles, annotate]
  | @lineComment body _ closed inside last =>
    rw [text_lineComment, List.cons_append, List.cons_append, annotate, List.append_assoc,
      (annotate_line_append inside _).1]
    rcases last with rfl | rfl
    · simp [Part.roles, annotate]
    · cases closed <;> simp [Part.roles, annotate]
  | @blockComment body _ closed inside last =>
    have hstart : ((if closed = true then ['*', '/'] else []) ++ rest).head? ≠ some '/' := by
      rcases last with rfl | rfl
      · simp
      · cases closed <;> simp
    rw [text_blockComment, List.cons_append, List.cons_append, annotate, List.append_assoc,
      (annotate_block_append inside hstart).1]
    rcases last with rfl | rfl
    · simp [Part.roles, annotate]
    · cases closed <;> simp [Part.roles, annotate]

/-- Reading a text gives its characters the roles that they have in the parts. -/
theorem annotate_of_divides {parts : List Part} {text : List Char} (h : Divides parts text) :
    annotate .code text = parts.flatMap Part.roles := by
  induction h with
  | nil => simp [annotate]
  | cons fits _ ih => rw [annotate_of_fits fits, ih, List.flatMap_cons]

end Likeness
