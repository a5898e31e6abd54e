import Likeness.Proofs.Lexing
import Mathlib.Tactic.SplitIfs

/-!
# Kinds of tokens and the vocabulary

The reserved words, the operators and the words for values have no token in common, so the kind of a token says in which of
the lists it is (`kind_eq_keyword_iff`, `kind_eq_operator_iff`, `kind_eq_excludedLiteral_iff`).  Every token of a text is of
one of the kinds that have a meaning (`kind_ne_other_of_isLexeme`).
-/

namespace Likeness

private theorem operators_apart : ∀ t ∈ operators, t ∉ keywords := by
  decide +kernel

private theorem excludedLiterals_apart : ∀ t ∈ excludedLiterals, t ∉ keywords ∧ t ∉ operators := by
  decide +kernel

theorem kind_eq_keyword_iff {t : Token} : t.kind = .keyword ↔ t ∈ keywords := by
  unfold Token.kind
  split_ifs with h <;> simp [h]

theorem kind_eq_operator_iff {t : Token} : t.kind = .operator ↔ t ∈ operators := by
  constructor
  · intro h
    unfold Token.kind at h
    split_ifs at h with _ hoperator
    exact hoperator
  · intro h
    rw [Token.kind, if_neg (operators_apart t h), if_pos h]

theorem kind_eq_excludedLiteral_iff {t : Token} : t.kind = .excludedLiteral ↔ t ∈ excludedLiterals := by
  constructor
  · intro h
    unfold Token.kind at h
    split_ifs at h with _ _ hexcluded
    exact hexcluded
  · intro h
    obtain ⟨hkeyword, hoperator⟩ := excludedLiterals_apart t h
    rw [Token.kind, if_neg hkeyword, if_neg hoperator, if_pos h]

/-- No token of a text is of another kind than the four that have a meaning. -/
theorem kind_ne_other_of_isLexeme {t : Token} (h : IsLexeme t) : t.kind ≠ .other := by
  have hclass : t ∈ operators ∨ t.head?.any startsWord = true := by
    rcases h with h | ⟨h, _⟩
    · cases t with
      | nil => exact h.elim
      | cons c rest => exact .inr (by simpa using h.1)
    · exact .inl h
  intro hkind
  unfold Token.kind at hkind
  split_ifs at hkind with _ hoperator _ hstart
  rcases hclass with hclass | hclass
  · exact hoperator hclass
  · exact hstart hclass

end Likeness
