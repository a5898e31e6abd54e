import Likeness.Source.Role

/-!
# Reading a source text in parts

How `annotate` and `Mode.after` go on from one character to the next, and from one part of a text to the next.

* (steps) one equation for each mode and each kind of character: `annotate_code_cons`, `annotate_line_cons`,
  `annotate_block_cons`, `annotate_literal_cons`, and the same for `Mode.after`;
* (parts) a text that is left in the mode of code is read independently of what follows, unless a slash of code at
  its end makes a comment sign with what follows (`annotate_append`);
* (places) a character with the role of code is reached in the mode of code (`after_take_of_role_code`), and only line
  ends and quotes have the roles of such (`char_of_mem_annotate`).
-/

namespace Likeness

-- the equations of the two readers are made here once, as nearly all lemmas below ask for them
attribute [local simp] annotate Mode.after

/-! ### Steps -/

private theorem head?_ne_of_not_cons {d : Char} {text : List Char} (h : ∀ rest, text = d :: rest → False) :
    text.head? ≠ some d := by
  cases text with
  | nil => simp
  | cons e rest =>
    rintro ⟨⟩
    exact h rest rfl

private theorem head?_append_ne {d : Char} {text more : List Char} (h : text.head? ≠ some d)
    (hmore : text = [] → more.head? ≠ some d) : (text ++ more).head? ≠ some d := by
  cases text with
  | nil => exact hmore rfl
  | cons e rest => exact h

private theorem head?_take_ne {d : Char} {text : List Char} (h : text.head? ≠ some d) (n : Nat) :
    (text.take n).head? ≠ some d := by
  rw [List.head?_take]
  split
  · simp
  · exact h

/-- In a literal a backslash is never read alone, whether or not a character follows it. -/
theorem ne_escape_of_unpaired {c : Char} {text : List Char} (last : c = '\\' → text = [] → False)
    (pair : ∀ d rest, c = '\\' → text = d :: rest → False) : c ≠ '\\' := by
  rintro rfl
  cases text with
  | nil => exact last rfl rfl
  | cons d rest => exact pair d rest rfl rfl

theorem Quote.char_ne_escape (q : Quote) : q.char ≠ '\\' := by
  cases q <;> decide

/-- Whether a character of code opens a comment with what follows it. -/
def OpensComment (c : Char) (text : List Char) : Prop :=
  c = '/' ∧ (text.head? = some '/' ∨ text.head? = some '*')

theorem annotate_code_cons {c : Char} {text : List Char} (h : ¬ OpensComment c text) :
    annotate .code (c :: text) = (c, Role.ofCode c) :: annotate (Mode.ofCode c) text := by
  rw [annotate]
  · rintro more hc rfl
    exact h ⟨hc, .inl rfl⟩
  · rintro more hc rfl
    exact h ⟨hc, .inr rfl⟩

theorem after_code_cons {c : Char} {text : List Char} (h : ¬ OpensComment c text) :
    Mode.after .code (c :: text) = Mode.after (Mode.ofCode c) text := by
  rw [Mode.after]
  · rintro more hc rfl
    exact h ⟨hc, .inl rfl⟩
  · rintro more hc rfl
    exact h ⟨hc, .inr rfl⟩

theorem annotate_line_cons {c : Char} (h : c ≠ '\n') (text : List Char) :
    annotate .lineComment (c :: text) = (c, .remark) :: annotate .lineComment text := by
  rw [annotate]
  exact h

theorem after_line_cons {c : Char} (h : c ≠ '\n') (text : List Char) :
    Mode.after .lineComment (c :: text) = Mode.after .lineComment text := by
  rw [Mode.after]
  exact h

theorem annotate_block_cons {c : Char} {text : List Char} (h : c = '*' → text.head? ≠ some '/') :
    annotate .blockComment (c :: text) =
      (c, if c = '\n' then .lineEnd else .remark) :: annotate .blockComment text := by
  split
  · next hc => rw [hc, annotate]
  · next hc =>
    rw [annotate]
    · exact hc
    · rintro more hstar rfl
      exact h hstar rfl

theorem after_block_cons {c : Char} {text : List Char} (h : c = '*' → text.head? ≠ some '/') :
    Mode.after .blockComment (c :: text) = Mode.after .blockComment text := by
  rw [Mode.after]
  rintro more hstar rfl
  exact h hstar rfl

theorem annotate_literal_cons {q : Quote} {c : Char} (h : c ≠ '\\') (text : List Char) :
    annotate (.literal q) (c :: text) =
      if c = q.char then (c, .quote) :: annotate .code text else (c, .body) :: annotate (.literal q) text := by
  rw [annotate]
  · exact fun hc _ => h hc
  · exact fun _ _ hc _ => h hc

theorem after_literal_cons {q : Quote} {c : Char} (h : c ≠ '\\') (text : List Char) :
    Mode.after (.literal q) (c :: text) =
      if c = q.char then Mode.after .code text else Mode.after (.literal q) text := by
  rw [Mode.after]
  · exact fun hc _ => h hc
  · exact fun _ _ hc _ => h hc

private theorem not_opensComment {c : Char} {text : List Char} (line : ∀ rest, c = '/' → text = '/' :: rest → False)
    (block : ∀ rest, c = '/' → text = '*' :: rest → False) : ¬ OpensComment c text := by
  rintro ⟨hc, h | h⟩
  · exact head?_ne_of_not_cons (line · hc) h
  · exact head?_ne_of_not_cons (block · hc) h

/-! ### Parts -/

/-- The place between two texts cuts no comment sign: if the second could complete one, the first does not end with a
slash of code. -/
def Uncut (mode : Mode) (first second : List Char) : Prop :=
  second.head? = some '/' ∨ second.head? = some '*' → ¬ [('/', Role.code)] <:+ annotate mode first

private theorem not_suffix_tail {α : Type} {x : α} {xs ys : List α} (h : ¬ xs <:+ x :: ys) : ¬ xs <:+ ys :=
  fun hs => h (List.suffix_cons_iff.2 (.inr hs))

/-- A text that is left in the mode of code is read independently of what follows. -/
theorem annotate_append {mode : Mode} {first second : List Char} (settled : mode.after first = .code)
    (uncut : Uncut mode first second) :
    annotate mode (first ++ second) = annotate mode first ++ annotate .code second := by
  unfold Uncut at uncut
  fun_induction annotate mode first with
  | case1 mode =>
    rw [Mode.after] at settled
    rw [settled]
    rfl
  | case2 text ih | case3 text ih | case8 text ih | case11 q c text ih =>
    rw [Mode.after] at settled
    have ih := ih settled fun hs => not_suffix_tail (not_suffix_tail (uncut hs))
    simp [ih]
  | case4 c text hline hblock ih =>
    have alone : ¬ OpensComment c text := not_opensComment hline hblock
    rw [after_code_cons alone] at settled
    have still : ¬ OpensComment c (text ++ second) := by
      rintro ⟨hc, hs⟩
      cases text with
      | cons d rest => exact alone ⟨hc, hs⟩
      | nil =>
        -- the one place where a sign could be cut: a slash at the very end
        subst hc
        exact uncut hs List.suffix_rfl
    rw [List.cons_append, annotate_code_cons still, ih settled fun hs => not_suffix_tail (uncut hs), List.cons_append]
  | case5 text ih =>
    rw [Mode.after] at settled
    have ih := ih settled fun hs => not_suffix_tail (uncut hs)
    simp [ih]
  | case6 c text hc ih =>
    rw [after_line_cons hc] at settled
    rw [List.cons_append, annotate_line_cons hc, ih settled fun hs => not_suffix_tail (uncut hs), List.cons_append]
  | case7 text ih =>
    rw [after_block_cons (fun h => absurd h (by decide))] at settled
    have ih := ih settled fun hs => not_suffix_tail (uncut hs)
    simp [ih]
  | case9 c text hc hclose ih =>
    have alone : c = '*' → text.head? ≠ some '/' := fun hstar => head?_ne_of_not_cons (hclose · hstar)
    rw [after_block_cons alone] at settled
    -- a star at the very end leaves the comment open, so it is not completed by what follows
    have hne : text ≠ [] := by
      rintro rfl
      cases settled
    have still : c = '*' → (text ++ second).head? ≠ some '/' := fun hstar =>
      head?_append_ne (alone hstar) fun h => absurd h hne
    rw [List.cons_append, annotate_block_cons still, if_neg hc, ih settled fun hs => not_suffix_tail (uncut hs),
      List.cons_append]
  | case10 q => cases settled
  | case12 q text last pair ih =>
    have hc := ne_escape_of_unpaired last pair
    rw [after_literal_cons hc, if_pos rfl] at settled
    rw [List.cons_append, annotate_literal_cons hc, if_pos rfl, ih settled fun hs => not_suffix_tail (uncut hs),
      List.cons_append]
  | case13 q c text last pair hquote ih =>
    have hc := ne_escape_of_unpaired last pair
    rw [after_literal_cons hc, if_neg hquote] at settled
    rw [List.cons_append, annotate_literal_cons hc, if_neg hquote, ih settled fun hs => not_suffix_tail (uncut hs),
      List.cons_append]

/-! ### Places -/

theorem Quote.exists_of_role_ofCode {c : Char} (h : Role.ofCode c = .quote) : ∃ q : Quote, c = q.char := by
  unfold Role.ofCode at h
  split at h
  · next hq =>
    obtain ⟨q, hq⟩ := Option.isSome_iff_exists.1 hq
    exact ⟨q, Quote.ofChar?_eq_some.1 hq⟩
  · cases h

private theorem role_ofCode_ne_lineEnd (c : Char) : Role.ofCode c ≠ .lineEnd := by
  unfold Role.ofCode
  split <;> simp

/-- Only line ends have the role of one, and only quotes have the role of one. -/
theorem char_of_mem_annotate {mode : Mode} {text : List Char} {x : Char × Role} (h : x ∈ annotate mode text) :
    (x.2 = .lineEnd → x.1 = '\n') ∧ (x.2 = .quote → ∃ q : Quote, x.1 = q.char) := by
  fun_induction annotate mode text with
  | case1 => simp at h
  | case2 text ih | case3 text ih | case8 text ih | case11 q d text ih =>
    rcases List.mem_cons.1 h with rfl | h
    · simp
    · rcases List.mem_cons.1 h with rfl | h
      · simp
      · exact ih h
  | case4 d text _ _ ih =>
    rcases List.mem_cons.1 h with rfl | h
    · exact ⟨fun hr => absurd hr (role_ofCode_ne_lineEnd d), Quote.exists_of_role_ofCode⟩
    · exact ih h
  | case12 q text _ _ ih =>
    rcases List.mem_cons.1 h with rfl | h
    · exact ⟨by simp, fun _ => ⟨q, rfl⟩⟩
    · exact ih h
  | case5 text ih | case7 text ih | case6 d text _ ih | case9 d text _ _ ih | case13 q d text _ _ _ ih =>
    rcases List.mem_cons.1 h with rfl | h
    · simp
    · exact ih h
  | case10 q =>
    rw [List.mem_singleton] at h
    simp [h]

/-- A character with the role of code is reached in the mode of code. -/
theorem after_take_of_role_code {mode : Mode} {text : List Char} {i : Nat} {c : Char}
    (h : (annotate mode text)[i]? = some (c, .code)) : mode.after (text.take i) = .code := by
  fun_induction annotate mode text generalizing i with
  | case1 => simp at h
  | case2 text ih | case3 text ih | case8 text ih | case11 q d text ih =>
    rcases i with _ | _ | i
    · simp at h
    · simp at h
    · rw [List.take_succ_cons, List.take_succ_cons, Mode.after]
      exact ih (by simpa using h)
  | case4 d text hline hblock ih =>
    cases i with
    | zero => rfl
    | succ i =>
      have alone := not_opensComment hline hblock
      have still : ¬ OpensComment d (text.take i) := by
        rintro ⟨hd, hs | hs⟩
        · exact head?_take_ne (fun h => alone ⟨hd, .inl h⟩) i hs
        · exact head?_take_ne (fun h => alone ⟨hd, .inr h⟩) i hs
      rw [List.take_succ_cons, after_code_cons still]
      exact ih (by simpa using h)
  | case5 text ih =>
    cases i with
    | zero => simp at h
    | succ i =>
      rw [List.take_succ_cons, Mode.after]
      exact ih (by simpa using h)
  | case6 d text hd ih =>
    cases i with
    | zero => simp at h
    | succ i =>
      rw [List.take_succ_cons, after_line_cons hd]
      exact ih (by simpa using h)
  | case7 text ih =>
    cases i with
    | zero => simp at h
    | succ i =>
      rw [List.take_succ_cons, after_block_cons (fun h => absurd h (by decide))]
      exact ih (by simpa using h)
  | case9 d text hd hclose ih =>
    cases i with
    | zero => simp at h
    | succ i =>
      have alone : d = '*' → text.head? ≠ some '/' := fun hstar => head?_ne_of_not_cons (hclose · hstar)
      rw [List.take_succ_cons, after_block_cons fun hstar => head?_take_ne (alone hstar) i]
      exact ih (by simpa using h)
  | case10 q => cases i <;> simp at h
  | case12 q text last pair ih =>
    cases i with
    | zero => simp at h
    | succ i =>
      rw [List.take_succ_cons, after_literal_cons (ne_escape_of_unpaired last pair), if_pos rfl]
      exact ih (by simpa using h)
  | case13 q d text last pair hquote ih =>
    cases i with
    | zero => simp at h
    | succ i =>
      rw [List.take_succ_cons, after_literal_cons (ne_escape_of_unpaired last pair), if_neg hquote]
      exact ih (by simpa using h)

end Likeness
