import Likeness.Source.Role
import Likeness.Token.Piece

/-!
# Classes of characters

How the classes that a text is cut by lie to each other.

* (tables) white space is neither alphabetic nor numeric (`isLetter_of_isBlank`, `isNumeral_of_isBlank`), and a digit
  is numeric and not alphabetic;
* (breaks) white space and quotes break a text: they stand in no word, no number and no operator, so that no piece
  but their own reaches over them (`Breaks`).
-/

namespace Likeness

/-! ### White space in the tables -/

private theorem blankRanges_ascending : blankRanges.Ascending := by
  unfold CodeRanges.Ascending
  decide

private theorem has_of_mem_blankRanges : ∀ r ∈ blankRanges, ∀ n ∈ List.range' r.1 (r.2 + 1 - r.1),
    letterRanges.has n = false ∧ numeralRanges.has n = false := by
  decide +kernel

private theorem tables_of_isBlank {c : Char} (h : isBlank c = true) :
    isLetter c = false ∧ isNumeral c = false := by
  obtain ⟨r, hr, hle, hge⟩ := (CodeRanges.has_iff blankRanges_ascending c.toNat).1 h
  refine has_of_mem_blankRanges r hr c.toNat ?_
  rw [List.mem_range'_1]
  omega

/-- White space is not alphabetic. -/
theorem isLetter_of_isBlank {c : Char} (h : isBlank c = true) : isLetter c = false :=
  (tables_of_isBlank h).1

/-- White space is not numeric. -/
theorem isNumeral_of_isBlank {c : Char} (h : isBlank c = true) : isNumeral c = false :=
  (tables_of_isBlank h).2

theorem isNumeral_of_isDigit {c : Char} (h : c.isDigit = true) : isNumeral c = true := by
  simp only [Char.isDigit, Bool.and_eq_true, decide_eq_true_eq] at h
  have hle : 0x30 ≤ c.toNat := h.1
  have hge : c.toNat ≤ 0x39 := h.2
  simp [isNumeral, numeralRanges, CodeRanges.has, hle, hge]

theorem isLetter_of_isDigit {c : Char} (h : c.isDigit = true) : isLetter c = false := by
  simp only [Char.isDigit, Bool.and_eq_true, decide_eq_true_eq] at h
  have hle : 0x30 ≤ c.toNat := h.1
  have hge : c.toNat ≤ 0x39 := h.2
  -- the table starts above the digits, so the look-up ends at its first range
  have hfirst : isLetter c =
      if c.toNat ≤ 0x5A then decide (0x41 ≤ c.toNat) else CodeRanges.has letterRanges.tail c.toNat := rfl
  rw [hfirst, if_pos (by omega), decide_eq_false (by omega)]

theorem startsWord_of_isDigit {c : Char} (h : c.isDigit = true) : startsWord c = false := by
  have hc : c ≠ '_' := by
    rintro rfl
    exact absurd h (by decide)
  simp [startsWord, isLetter_of_isDigit h, hc]

theorem isBlank_of_isDigit {c : Char} (h : c.isDigit = true) : isBlank c = false := by
  rw [Bool.eq_false_iff]
  intro hblank
  have hnumeral := isNumeral_of_isBlank hblank
  rw [isNumeral_of_isDigit h] at hnumeral
  cases hnumeral

theorem continuesWord_of_startsWord {c : Char} (h : startsWord c = true) : continuesWord c = true := by
  simp only [startsWord, continuesWord, Bool.or_eq_true] at h ⊢
  rcases h with h | h
  · exact .inl (.inl h)
  · exact .inr h

/-! ### Breaks -/

/-- A character breaks a text if it is white space or a quote. -/
def Breaks (c : Char) : Prop :=
  isBlank c = true ∨ ∃ q : Quote, c = q.char

theorem continuesWord_of_breaks {c : Char} (h : Breaks c) : continuesWord c = false := by
  rcases h with h | ⟨q, rfl⟩
  · have hc : c ≠ '_' := by
      rintro rfl
      exact absurd h (by decide)
    simp [continuesWord, isLetter_of_isBlank h, isNumeral_of_isBlank h, hc]
  · cases q <;> decide

theorem startsWord_of_breaks {c : Char} (h : Breaks c) : startsWord c = false := by
  rw [Bool.eq_false_iff]
  intro hc
  have := continuesWord_of_startsWord hc
  rw [continuesWord_of_breaks h] at this
  cases this

theorem continuesNumber_of_breaks {c : Char} (h : Breaks c) : continuesNumber c = false := by
  rcases h with h | ⟨q, rfl⟩
  · have hdot : c ≠ '.' := by
      rintro rfl
      exact absurd h (by decide)
    have hdigit : c.isDigit = false := by
      rw [Bool.eq_false_iff]
      intro hc
      have := isNumeral_of_isDigit hc
      rw [isNumeral_of_isBlank h] at this
      cases this
    simp [continuesNumber, hdot, hdigit]
  · cases q <;> decide

private theorem operators_unbroken : ∀ op ∈ operators, op.all (fun c => !isBlank c && Quote.ofChar? c = none) = true := by
  decide +kernel

theorem notMem_operator_of_breaks {c : Char} (h : Breaks c) {op : Token} (hop : op ∈ operators) : c ∉ op := by
  intro hc
  have hunbroken := List.all_eq_true.1 (operators_unbroken op hop) c hc
  simp only [Bool.and_eq_true, Bool.not_eq_true', decide_eq_true_eq] at hunbroken
  obtain ⟨hblank, hquote⟩ := hunbroken
  rcases h with h | ⟨q, rfl⟩
  · rw [h] at hblank
    cases hblank
  · rw [Quote.ofChar?_char] at hquote
    cases hquote

end Likeness
