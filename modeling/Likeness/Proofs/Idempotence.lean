import Mathlib.Data.List.Basic
import Likeness.Proofs.Cleaning

/-!
# Cleaning twice

What has been cleaned is not changed by cleaning it again, neither by one of the two passes nor by both.

* (readings) `Role.remnant` says which roles are left of a text.  What a pass leaves is read with just these roles
  (`annotate_remnant`): the space in the place of a comment is code, and every quote opens or closes what it did before.
* (neighbours) Emptying literals brings no two characters together, so that no two become the sign of a comment
  (`infix_of_infix_emptyLiterals`).
* `cleaning_isIdempotent` puts both together.
-/

namespace Likeness

/-- What is left of a character and its role when comments are taken out, and with them the bodies of literals unless they
are kept. -/
def Role.remnant (keepsBodies : Bool) : Char × Role → List (Char × Role)
  | (_, .opener) => [(' ', .code)]
  | (_, .remark) => []
  | (c, .body) => if keepsBodies then [(c, .body)] else []
  | (c, .lineEnd) => [(c, .code)]
  | x => [x]

/-- The mode in which what is left of a text is read: comments are read as code. -/
def Mode.withoutComments : Mode → Mode
  | .literal q => .literal q
  | _ => .code

/-! ### Readings -/

theorem outsideComments_eq_remnant (x : Char × Role) : Role.outsideComments x = (Role.remnant true x).map Prod.fst := by
  obtain ⟨c, role⟩ := x
  cases role <;> rfl

theorem kept_eq_remnant (x : Char × Role) : Role.kept x = (Role.remnant false x).map Prod.fst := by
  obtain ⟨c, role⟩ := x
  cases role <;> rfl

/-- A remnant has no comments, so taking comments out does nothing more to it. -/
theorem outsideComments_of_mem_remnant {keepsBodies : Bool} {x y : Char × Role} (h : y ∈ Role.remnant keepsBodies x) :
    Role.outsideComments y = [y.1] := by
  obtain ⟨c, role⟩ := x
  cases role <;> cases keepsBodies <;> simp [Role.remnant] at h <;> subst h <;> rfl

@[simp] theorem remnant_ofCode (keepsBodies : Bool) (c : Char) :
    Role.remnant keepsBodies (c, Role.ofCode c) = [(c, Role.ofCode c)] := by
  unfold Role.ofCode
  split <;> rfl

@[simp] theorem withoutComments_ofCode (c : Char) : (Mode.ofCode c).withoutComments = Mode.ofCode c := by
  unfold Mode.ofCode
  cases Quote.ofChar? c <;> rfl

/-- What is left of a text of code starts with the first character of the text, or with the space for a comment. -/
private theorem head?_remnant (keepsBodies : Bool) (text : List Char) :
    (((annotate .code text).flatMap (Role.remnant keepsBodies)).map Prod.fst).head? = text.head? ∨
      (((annotate .code text).flatMap (Role.remnant keepsBodies)).map Prod.fst).head? = some ' ' := by
  cases text with
  | nil => left; simp [annotate]
  | cons c text =>
    by_cases ho : OpensComment c text
    · right
      obtain ⟨rfl, hhead | hhead⟩ := ho <;>
        obtain ⟨more, rfl⟩ := List.head?_eq_some_iff.1 hhead <;>
        simp [annotate, Role.remnant]
    · left
      simp [annotate_code_cons ho]

/-- What is left of a text is read with the roles that are left of it. -/
theorem annotate_remnant (keepsBodies : Bool) (mode : Mode) (text : List Char) :
    annotate mode.withoutComments (((annotate mode text).flatMap (Role.remnant keepsBodies)).map Prod.fst) =
      (annotate mode text).flatMap (Role.remnant keepsBodies) := by
  have hspace : ∀ rest, annotate .code (' ' :: rest) = (' ', .code) :: annotate .code rest := fun rest =>
    annotate_code_cons (by rintro ⟨h, _⟩; exact absurd h (by decide))
  have hline : ∀ rest, annotate .code ('\n' :: rest) = ('\n', .code) :: annotate .code rest := fun rest =>
    annotate_code_cons (by rintro ⟨h, _⟩; exact absurd h (by decide))
  fun_induction annotate mode text with
  | case1 => simp [annotate]
  | case2 text ih | case3 text ih =>
    simpa [Role.remnant, Mode.withoutComments, hspace] using ih
  | case4 c text hslash hstar ih =>
    -- a slash that opened no comment stands before the same character as it did, or before a space
    have alone : ¬ OpensComment c (((annotate (Mode.ofCode c) text).flatMap (Role.remnant keepsBodies)).map Prod.fst) := by
      rintro ⟨rfl, hopens⟩
      have hcode : Mode.ofCode '/' = .code := rfl
      rw [hcode] at hopens
      rcases head?_remnant keepsBodies text with hhead | hhead <;> rw [hhead] at hopens
      · rcases hopens with h | h <;> obtain ⟨more, rfl⟩ := List.head?_eq_some_iff.1 h
        · exact hslash more rfl rfl
        · exact hstar more rfl rfl
      · rcases hopens with h | h <;> simp at h
    rw [withoutComments_ofCode] at ih
    rw [List.flatMap_cons, remnant_ofCode, List.singleton_append, List.map_cons]
    change annotate .code _ = _
    rw [annotate_code_cons alone, ih]
  | case5 text ih | case7 text ih =>
    simpa [Role.remnant, Mode.withoutComments, hline] using ih
  | case6 c text _ ih | case8 text ih | case9 c text _ _ ih =>
    simpa [Role.remnant, Mode.withoutComments] using ih
  | case10 q =>
    cases keepsBodies <;> simp [Role.remnant, Mode.withoutComments, annotate]
  | case11 q c text ih =>
    cases keepsBodies <;> simpa [Role.remnant, Mode.withoutComments, annotate] using ih
  | case12 q text last pair ih =>
    simpa [Role.remnant, Mode.withoutComments, annotate_literal_cons q.char_ne_escape] using ih
  | case13 q c text last pair hquote ih =>
    have hc : c ≠ '\\' := ne_escape_of_unpaired last pair
    cases keepsBodies <;>
      simpa [Role.remnant, Mode.withoutComments, annotate_literal_cons hc, hquote] using ih

private theorem stripComments_eq (text : List Char) :
    stripComments text = ((annotate .code text).flatMap (Role.remnant true)).map Prod.fst := by
  rw [stripComments, List.map_flatMap]
  exact List.flatMap_congr fun x _ => outsideComments_eq_remnant x

private theorem clean_eq (text : List Char) :
    clean text = ((annotate .code text).flatMap (Role.remnant false)).map Prod.fst := by
  rw [clean_eq_flatMap, List.map_flatMap]
  exact List.flatMap_congr fun x _ => kept_eq_remnant x

/-- Taking out comments does not change what is left of a text. -/
private theorem stripComments_remnant (keepsBodies : Bool) (text : List Char) :
    stripComments (((annotate .code text).flatMap (Role.remnant keepsBodies)).map Prod.fst) =
      ((annotate .code text).flatMap (Role.remnant keepsBodies)).map Prod.fst := by
  have hread := annotate_remnant keepsBodies .code text
  change annotate .code _ = _ at hread
  rw [stripComments, hread]
  have hkeep : ∀ y ∈ (annotate .code text).flatMap (Role.remnant keepsBodies), Role.outsideComments y = [y.1] := by
    intro y hy
    obtain ⟨x, _, hx⟩ := List.mem_flatMap.1 hy
    exact outsideComments_of_mem_remnant hx
  rw [List.flatMap_congr hkeep]
  exact List.flatMap_pure_eq_map Prod.fst _

/-! ### Literals -/

private theorem dropBodies_dropBodies (quote : Option Quote) (text : List Char) :
    dropBodies quote (dropBodies quote text) = dropBodies quote text := by
  fun_induction dropBodies quote text with
  | case1 => simp [dropBodies]
  | case2 c text ih => rw [dropBodies, ih]
  | case3 q => rfl
  | case4 q c text ih => exact ih
  | case5 q text last pair ih => rw [dropBodies_some_cons q.char_ne_escape, if_pos rfl, ih]
  | case6 q c text last pair hquote ih => exact ih

private theorem head?_dropBodies_none (text : List Char) : (dropBodies none text).head? = text.head? := by
  cases text <;> rfl

/-- Two neighbours of which the first is no quote were neighbours before. -/
private theorem infix_of_infix_dropBodies {c d : Char} (hc : Quote.ofChar? c = none)
    {quote : Option Quote} {text : List Char} (h : [c, d] <:+: dropBodies quote text) : [c, d] <:+: text := by
  fun_induction dropBodies quote text with
  | case1 => exact h
  | case2 e text ih =>
    rcases List.infix_cons_iff.1 h with hprefix | hinfix
    · obtain ⟨rfl, htail⟩ := List.cons_prefix_cons.1 hprefix
      rw [hc] at htail
      have hhead : (dropBodies none text).head? = some d := by
        obtain ⟨more, hmore⟩ := htail
        rw [← hmore]
        rfl
      rw [head?_dropBodies_none] at hhead
      obtain ⟨more, rfl⟩ := List.head?_eq_some_iff.1 hhead
      exact ⟨[], more, rfl⟩
    · exact (ih hinfix).trans (List.suffix_cons e text).isInfix
  | case3 q => simp at h
  | case4 q e text ih => exact (ih h).trans ⟨['\\', e], [], by simp⟩
  | case5 q text last pair ih =>
    rcases List.infix_cons_iff.1 h with hprefix | hinfix
    · -- a quote is none of the two
      obtain ⟨rfl, _⟩ := List.cons_prefix_cons.1 hprefix
      simp at hc
    · exact (ih hinfix).trans (List.suffix_cons _ text).isInfix
  | case6 q e text last pair hquote ih => exact (ih h).trans (List.suffix_cons e text).isInfix

/-- Emptying literals brings no character after another one that is no quote, so no sign of a comment arises. -/
theorem infix_of_infix_emptyLiterals {c d : Char} (hc : Quote.ofChar? c = none) {text : List Char}
    (h : [c, d] <:+: emptyLiterals text) : [c, d] <:+: text :=
  infix_of_infix_dropBodies hc h

theorem emptyLiterals_emptyLiterals (text : List Char) : emptyLiterals (emptyLiterals text) = emptyLiterals text :=
  dropBodies_dropBodies none text

/-- Each pass of cleaning does nothing more to what it has left, and neither does any to what both have left.  What is left
is read with the roles that are left, so that no comment or literal opens or closes anew, and emptying the literals of any
text puts nothing after a slash that did not follow it before. -/
theorem cleaning_isIdempotent (text : List Char) :
    stripComments (stripComments text) = stripComments text ∧
      emptyLiterals (emptyLiterals text) = emptyLiterals text ∧
      stripComments (clean text) = clean text ∧ emptyLiterals (clean text) = clean text ∧ clean (clean text) = clean text ∧
      annotate .code (stripComments text) = (annotate .code text).flatMap (Role.remnant true) ∧
      annotate .code (clean text) = (annotate .code text).flatMap (Role.remnant false) ∧
      ∀ sign : Char, ['/', sign] <:+: emptyLiterals text → ['/', sign] <:+: text := by
  have hstripped : stripComments (clean text) = clean text := by
    rw [clean_eq]
    exact stripComments_remnant false text
  have hemptied : emptyLiterals (clean text) = clean text := emptyLiterals_emptyLiterals _
  refine ⟨?_, emptyLiterals_emptyLiterals text, hstripped, hemptied, ?_, ?_, ?_, ?_⟩
  · rw [stripComments_eq text]
    exact stripComments_remnant true text
  · rw [clean, hstripped, hemptied]
  · rw [stripComments_eq text]
    exact annotate_remnant true .code text
  · rw [clean_eq text]
    exact annotate_remnant false .code text
  · exact fun sign => infix_of_infix_emptyLiterals rfl

end Likeness
