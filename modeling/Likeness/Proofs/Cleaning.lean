import Likeness.Proofs.Classes
import Likeness.Proofs.Reading
import Likeness.Source.Cleaning

/-!
# Cleaning in one pass

Cleaning takes two passes: one over the text and its comments, and one over what that leaves and its literals.  The
second pass finds the literals again that the first has found.

* `clean_eq_flatMap` says that both passes together keep of each character what its role in the one reading asks for,
  and `clean_eq_onePass` that they come to one pass over the text;
* `clean_append` cleans a text part by part;
* `breaks_of_mem_kept` says that what is kept of comments and literals breaks the text.
-/

namespace Likeness

/-- What is kept of a character when a text is cleaned: one space for the whole of a comment, its line ends, and of a
literal only the quotes. -/
def Role.kept : Char × Role → List Char
  | (_, .opener) => [' ']
  | (_, .remark) | (_, .body) => []
  | (c, _) => [c]

/-- The quote of the literal that is being read, if one is. -/
def Mode.quote? : Mode → Option Quote
  | .literal q => some q
  | _ => none

@[simp] theorem Mode.quote?_ofCode (c : Char) : (Mode.ofCode c).quote? = Quote.ofChar? c := by
  unfold Mode.ofCode
  cases Quote.ofChar? c <;> rfl

@[simp] theorem Role.kept_ofCode (c : Char) : Role.kept (c, Role.ofCode c) = [c] := by
  unfold Role.ofCode
  split <;> rfl

@[simp] theorem Role.outsideComments_ofCode (c : Char) : Role.outsideComments (c, Role.ofCode c) = [c] := by
  unfold Role.ofCode
  split <;> rfl

/-! ### The two passes are one -/

theorem dropBodies_some_cons {q : Quote} {c : Char} (h : c ≠ '\\') (text : List Char) :
    dropBodies (some q) (c :: text) =
      if c = q.char then c :: dropBodies none text else dropBodies (some q) text := by
  rw [dropBodies]
  · exact fun hc _ => h hc
  · exact fun _ _ hc _ => h hc

/-- The second pass is in a literal exactly where the first was. -/
private theorem dropBodies_flatMap_annotate (mode : Mode) (text : List Char) :
    dropBodies mode.quote? ((annotate mode text).flatMap Role.outsideComments) =
      (annotate mode text).flatMap Role.kept := by
  fun_induction annotate mode text with
  | case1 => simp [dropBodies]
  | case2 text ih | case3 text ih | case5 text ih | case7 text ih =>
    simpa [Role.outsideComments, Role.kept, dropBodies, Mode.quote?, Quote.ofChar?] using ih
  | case4 c text _ _ ih =>
    rw [List.flatMap_cons, List.flatMap_cons, Role.outsideComments_ofCode, Role.kept_ofCode, ← ih,
      Mode.quote?_ofCode]
    rfl
  | case6 c text _ ih | case8 text ih | case9 c text _ _ ih =>
    simpa [Role.outsideComments, Role.kept, Mode.quote?] using ih
  | case10 q => rfl
  | case11 q c text ih =>
    simpa [Role.outsideComments, Role.kept, dropBodies, Mode.quote?] using ih
  | case12 q text _ _ ih =>
    simpa [Role.outsideComments, Role.kept, Mode.quote?, dropBodies_some_cons q.char_ne_escape] using ih
  | case13 q c text last pair hquote ih =>
    have hc : c ≠ '\\' := ne_escape_of_unpaired last pair
    simpa [Role.outsideComments, Role.kept, Mode.quote?, dropBodies_some_cons hc, hquote] using ih

/-- Cleaning keeps of each character what its role asks for. -/
theorem clean_eq_flatMap (text : List Char) : clean text = (annotate .code text).flatMap Role.kept :=
  dropBodies_flatMap_annotate .code text

/-! ### One pass -/

/-- One pass over a text, which emits what is kept of it as it goes along. -/
def onePass : Mode → List Char → List Char
  | _, [] => []
  | .code, '/' :: '/' :: text => ' ' :: onePass .lineComment text
  | .code, '/' :: '*' :: text => ' ' :: onePass .blockComment text
  | .code, c :: text => c :: onePass (Mode.ofCode c) text
  | .lineComment, c :: text => if c = '\n' then c :: onePass .code text else onePass .lineComment text
  | .blockComment, '*' :: '/' :: text => onePass .code text
  | .blockComment, c :: text => if c = '\n' then c :: onePass .blockComment text else onePass .blockComment text
  -- a backslash takes the next character with it, if there is one
  | .literal _, ['\\'] => []
  | .literal q, '\\' :: _ :: text => onePass (.literal q) text
  | .literal q, c :: text => if c = q.char then c :: onePass .code text else onePass (.literal q) text

private theorem flatMap_kept_annotate (mode : Mode) (text : List Char) :
    (annotate mode text).flatMap Role.kept = onePass mode text := by
  fun_induction annotate mode text with
  | case1 => simp [onePass]
  | case2 text ih | case3 text ih | case5 text ih | case7 text ih | case8 text ih | case11 q c text ih =>
    simpa [onePass, Role.kept] using ih
  | case4 c text hline hblock ih =>
    rw [List.flatMap_cons, Role.kept_ofCode, ih, onePass]
    · rfl
    · exact hline
    · exact hblock
  | case6 c text hc ih =>
    rw [onePass, if_neg hc, ← ih]
    rfl
  | case9 c text hc hclose ih =>
    rw [onePass, if_neg hc, ← ih]
    · rfl
    · exact hclose
  | case10 q => rfl
  | case12 q text last pair ih | case13 q c text last pair hquote ih =>
    rw [onePass]
    · simp [Role.kept, *]
    · exact last
    · exact pair

/-- The two passes of cleaning come to the same as one, in which a literal ends where the first of them lets it end. -/
theorem clean_eq_onePass (text : List Char) : clean text = onePass .code text := by
  rw [clean_eq_flatMap, flatMap_kept_annotate]

/-! ### Part by part -/

/-- A text that is left in the mode of code is cleaned independently of what follows. -/
theorem clean_append {first second : List Char} (settled : Mode.after .code first = .code)
    (uncut : Uncut .code first second) : clean (first ++ second) = clean first ++ clean second := by
  rw [clean_eq_flatMap, annotate_append settled uncut, List.flatMap_append, ← clean_eq_flatMap, ← clean_eq_flatMap]

/-- Nothing that is read in the mode of code is dropped without a mark. -/
theorem exists_annotate_code_cons (c : Char) (text : List Char) :
    ∃ role rest, annotate .code (c :: text) = (c, role) :: rest ∧ Role.kept (c, role) ≠ [] := by
  by_cases ho : OpensComment c text
  · obtain ⟨rfl, hhead | hhead⟩ := ho
    · obtain ⟨more, rfl⟩ := List.head?_eq_some_iff.1 hhead
      exact ⟨.opener, _, by rw [annotate], by simp [Role.kept]⟩
    · obtain ⟨more, rfl⟩ := List.head?_eq_some_iff.1 hhead
      exact ⟨.opener, _, by rw [annotate], by simp [Role.kept]⟩
  · exact ⟨Role.ofCode c, _, annotate_code_cons ho, by simp⟩

theorem clean_ne_nil {text : List Char} (h : text ≠ []) : clean text ≠ [] := by
  obtain ⟨c, text, rfl⟩ := List.exists_cons_of_ne_nil h
  obtain ⟨role, rest, hroles, hkept⟩ := exists_annotate_code_cons c text
  rw [clean_eq_flatMap, hroles, List.flatMap_cons]
  exact List.append_ne_nil_of_left_ne_nil hkept _

/-- What is kept of a comment or a literal breaks the text. -/
theorem breaks_of_mem_kept {mode : Mode} {text : List Char} {x : Char × Role} (hx : x ∈ annotate mode text)
    (hcode : x.2 ≠ .code) {c : Char} (hc : c ∈ Role.kept x) : Breaks c := by
  obtain ⟨hlineEnd, hquote⟩ := char_of_mem_annotate hx
  obtain ⟨d, role⟩ := x
  cases role with
  | code => exact absurd rfl hcode
  | quote =>
    obtain rfl : c = d := by simpa [Role.kept] using hc
    exact .inr (hquote rfl)
  | body | remark => simp [Role.kept] at hc
  | opener =>
    obtain rfl : c = ' ' := by simpa [Role.kept] using hc
    exact .inl (by decide)
  | lineEnd =>
    obtain rfl : c = d := by simpa [Role.kept] using hc
    obtain rfl : c = '\n' := hlineEnd rfl
    exact .inl (by decide)

/-- A plain text has no quotes and no slashes. -/
def IsPlain (text : List Char) : Prop :=
  ∀ c ∈ text, c ≠ '/' ∧ Quote.ofChar? c = none

theorem annotate_of_isPlain {text : List Char} (h : IsPlain text) :
    annotate .code text = text.map (·, Role.code) ∧ Mode.after .code text = .code := by
  induction text with
  | nil => exact ⟨by simp [annotate], rfl⟩
  | cons c text ih =>
    obtain ⟨hslash, hquote⟩ := h c (by simp)
    obtain ⟨hroles, hafter⟩ := ih fun d hd => h d (by simp [hd])
    have alone : ¬ OpensComment c text := fun ho => hslash ho.1
    have hmode : Mode.ofCode c = .code := by simp [Mode.ofCode, hquote]
    have hrole : Role.ofCode c = .code := by simp [Role.ofCode, hquote]
    rw [annotate_code_cons alone, after_code_cons alone, hmode, hrole, hroles, hafter]
    exact ⟨rfl, rfl⟩

/-- Text that is all code is kept. -/
theorem flatMap_kept_code (text : List Char) : (text.map (·, Role.code)).flatMap Role.kept = text := by
  induction text with
  | nil => rfl
  | cons c text ih => simpa [Role.kept] using ih

theorem clean_of_isPlain {text : List Char} (h : IsPlain text) : clean text = text := by
  rw [clean_eq_flatMap, (annotate_of_isPlain h).1, flatMap_kept_code]

end Likeness
