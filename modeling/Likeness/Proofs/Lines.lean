import Likeness.Proofs.Parts

/-!
# Lines

Taking comments out of a text keeps its lines apart, and takes out of each line only what belongs to a comment.

* (splitting) a text that is put together from what is left of each character has the same lines as the characters, if line
  ends are left alone and no others arise (`splitOn_flatMap`).
* (line ends) in the parts of a text no line end is hidden in a comment (`Part.Fits.role_of_lineEnd`).
* `stripComments_keepsLines` is the law for the lines, and for the number of line ends that cleaning leaves.
-/

namespace Likeness

/-! ### Splitting -/

section

variable {α : Type} {f : α → List Char} {isEnd : α → Bool}

private theorem splitOn_append {word : List Char} (h : '\n' ∉ word) (rest : List Char) :
    (word ++ rest).splitOn '\n' = (rest.splitOn '\n').modifyHead (word ++ ·) := by
  induction word with
  | nil =>
    rw [List.nil_append]
    cases List.splitOn '\n' rest <;> rfl
  | cons c word ih =>
    rw [List.mem_cons, not_or] at h
    have hc : (c == '\n') = false := beq_eq_false_iff_ne.2 (Ne.symm h.1)
    rw [List.cons_append, List.splitOn_cons_eq_if_modifyHead, hc, ih h.2, if_neg Bool.false_ne_true,
      List.modifyHead_modifyHead]
    rfl

/-- What is left of a text line by line is what is left of its lines. -/
theorem splitOn_flatMap {xs : List α} (ends : ∀ x ∈ xs, isEnd x = true → f x = ['\n'])
    (others : ∀ x ∈ xs, isEnd x = false → '\n' ∉ f x) :
    (xs.flatMap f).splitOn '\n' = (xs.splitOnP isEnd).map (·.flatMap f) := by
  induction xs with
  | nil => rfl
  | cons x xs ih =>
    have ih := ih (fun y hy => ends y (by simp [hy])) fun y hy => others y (by simp [hy])
    rw [List.flatMap_cons, List.splitOnP_cons_eq_if_modifyHead]
    cases hx : isEnd x with
    | true =>
      rw [ends x (by simp) hx, List.singleton_append, List.splitOn_cons_eq_if_modifyHead, ih]
      rfl
    | false =>
      rw [splitOn_append (others x (by simp) hx), ih]
      cases xs.splitOnP isEnd <;> simp

/-- Each character is read for itself. -/
private theorem splitOn_map (g : α → Char) (xs : List α) :
    (xs.map g).splitOn '\n' = (xs.splitOnP (g · == '\n')).map (·.map g) := by
  have ends : ∀ x ∈ xs, (g x == '\n') = true → [g x] = ['\n'] := fun x _ hx => by rw [eq_of_beq hx]
  have others : ∀ x ∈ xs, (g x == '\n') = false → '\n' ∉ [g x] := fun x _ hx h =>
    beq_eq_false_iff_ne.1 hx (List.mem_singleton.1 h).symm
  simpa only [← List.map_eq_flatMap] using splitOn_flatMap ends others

/-- What is left of a text has as many line ends as the text has characters that leave one. -/
private theorem count_flatMap_eq_countP {keeps : α → Bool} {xs : List α}
    (h : ∀ x ∈ xs, (f x).count '\n' = if keeps x then 1 else 0) : (xs.flatMap f).count '\n' = xs.countP keeps := by
  induction xs with
  | nil => rfl
  | cons x xs ih =>
    rw [List.flatMap_cons, List.count_append, List.countP_cons, h x (by simp), ih fun y hy => h y (by simp [hy]),
      Nat.add_comm]

end

/-! ### Line ends in parts -/

/-- In no part does a line end open a comment or belong to the rest of one that is deleted. -/
theorem Part.Fits.role_of_lineEnd {p : Part} {rest : List Char} (h : p.Fits rest) {role : Role}
    (hx : ('\n', role) ∈ p.roles) : role ≠ .opener ∧ role ≠ .remark := by
  cases h with
  | code =>
    obtain ⟨-, rfl⟩ := Prod.mk.inj (List.mem_singleton.1 hx)
    decide
  | literal | cutLiteral =>
    have hrole : role = .quote ∨ role = .body := by
      simp only [Part.roles, List.mem_cons, List.mem_append, List.mem_map, List.mem_ite_nil_right, List.not_mem_nil,
        Prod.mk.injEq, or_false, Bool.false_eq_true] at hx
      tauto
    rcases hrole with rfl | rfl <;> decide
  | lineComment inside _ =>
    -- Only the line end that closes the comment is left: there is none inside.
    have hrole : role = .lineEnd := by
      simp [Part.roles, inside] at hx
      exact hx.2
    subst hrole
    decide
  | blockComment =>
    have hrole : role = .lineEnd := by
      simp [Part.roles, Role.inBlock] at hx
      exact hx.2.symm
    subst hrole
    decide

/-- No line end of a text is lost with a comment. -/
theorem Divides.role_of_lineEnd {parts : List Part} {text : List Char} (h : Divides parts text) {role : Role}
    (hx : ('\n', role) ∈ parts.flatMap Part.roles) : role ≠ .opener ∧ role ≠ .remark := by
  induction h with
  | nil => cases hx
  | cons fits _ ih =>
    rw [List.flatMap_cons, List.mem_append] at hx
    rcases hx with hx | hx
    · exact fits.role_of_lineEnd hx
    · exact ih hx

/-! ### The law -/

/-- The lines of a text whose characters have roles. -/
def rows (roles : List (Char × Role)) : List (List (Char × Role)) :=
  roles.splitOnP (·.1 == '\n')

/-- What taking comments out, and cleaning, leave of the lines of a text. -/
structure KeepsLines (text : List Char) (roles : List (Char × Role)) : Prop where
  /-- The characters that have the roles are those of the text. -/
  read : text.splitOn '\n' = (rows roles).map (·.map Prod.fst)
  /-- Of each line is left what its characters leave, in their order. -/
  stripped : (stripComments text).splitOn '\n' = (rows roles).map (·.flatMap Role.outsideComments)
  count_stripped : (stripComments text).count '\n' = text.count '\n'
  /-- Cleaning leaves the line ends that are not in the body of a literal. -/
  count_cleaned : (clean text).count '\n' = roles.countP fun x => x.1 = '\n' ∧ x.2 ≠ .body

private theorem outsideComments_of_ne {c : Char} {role : Role} (h : role ≠ .opener ∧ role ≠ .remark) :
    Role.outsideComments (c, role) = [c] := by
  cases role with
  | opener => exact absurd rfl h.1
  | remark => exact absurd rfl h.2
  | code | quote | body | lineEnd => rfl

private theorem lineEnd_notMem_outsideComments {c : Char} (h : c ≠ '\n') (role : Role) :
    '\n' ∉ Role.outsideComments (c, role) := by
  cases role <;> simp [Role.outsideComments, Ne.symm h]

private theorem kept_eq_ite (x : Char × Role) :
    Role.kept x = if x.2 = .body then [] else Role.outsideComments x := by
  obtain ⟨c, role⟩ := x
  cases role <;> rfl

/-- No line end is lost with a comment, so taking comments out deals with each line alone. -/
theorem keepsLines_of_divides {parts : List Part} {text : List Char} (h : Divides parts text) :
    KeepsLines text (parts.flatMap Part.roles) := by
  have hroles := annotate_of_divides h
  have ends : ∀ x ∈ parts.flatMap Part.roles, (x.1 == '\n') = true → Role.outsideComments x = ['\n'] := by
    rintro ⟨c, role⟩ hx hc
    obtain rfl : c = '\n' := eq_of_beq hc
    exact outsideComments_of_ne (h.role_of_lineEnd hx)
  have others : ∀ x ∈ parts.flatMap Part.roles, (x.1 == '\n') = false → '\n' ∉ Role.outsideComments x := by
    rintro ⟨c, role⟩ - hc
    exact lineEnd_notMem_outsideComments (beq_eq_false_iff_ne.1 hc) role
  have htext : (parts.flatMap Part.roles).map Prod.fst = text := hroles ▸ map_fst_annotate .code text
  have hstrip : stripComments text = (parts.flatMap Part.roles).flatMap Role.outsideComments := by
    rw [stripComments, hroles]
  have hclean : clean text = (parts.flatMap Part.roles).flatMap Role.kept := by
    rw [clean_eq_flatMap, hroles]
  have hcount : ∀ x ∈ parts.flatMap Part.roles,
      (Role.outsideComments x).count '\n' = if (x.1 == '\n') = true then 1 else 0 := by
    intro x hx
    cases hc : x.1 == '\n' with
    | true => simp [ends x hx hc]
    | false => exact List.count_eq_zero.2 (others x hx hc)
  constructor
  · rw [← htext, splitOn_map, rows]
  · rw [hstrip, rows, splitOn_flatMap ends others]
  · rw [hstrip, count_flatMap_eq_countP hcount, ← htext, List.count, List.countP_map]
    rfl
  · rw [hclean]
    refine count_flatMap_eq_countP fun x hx => ?_
    rw [kept_eq_ite]
    by_cases hbody : x.2 = .body
    · simp [hbody]
    · rw [if_neg hbody, hcount x hx]
      simp [hbody]

example : stripComments "a /* b\n c */ d // e\nf".toList = "a  \n d  \nf".toList := by
  decide

/-- Taking comments out keeps the lines of every text, whose characters have the roles of its parts. -/
theorem stripComments_keepsLines (text : List Char) :
    (∃ parts, Divides parts text) ∧
      ∀ parts, Divides parts text → KeepsLines text (parts.flatMap Part.roles) :=
  ⟨exists_divides text, fun _ => keepsLines_of_divides⟩

end Likeness
