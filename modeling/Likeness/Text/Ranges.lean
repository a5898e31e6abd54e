/-!
# Ascending tables of code points

A character class that no short rule gives is a table of closed ranges in ascending order.

* `CodeRanges.has` looks a code point up and stops at the first range that ends at or after it;
* `CodeRanges.has_iff` says that on an ascending table this is membership in one of the ranges.
-/

namespace Likeness

/-- Closed ranges of code points, each a first and a last member. -/
abbrev CodeRanges := List (Nat × Nat)

namespace CodeRanges

/-- Whether a code point lies in one of the ranges of an ascending table. -/
def has : CodeRanges → Nat → Bool
  | [], _ => false
  | (first, last) :: ranges, n => if n ≤ last then first ≤ n else has ranges n

/-- A table is ascending if each range ends before the next one starts. -/
def Ascending (ranges : CodeRanges) : Prop :=
  ranges.Pairwise fun r s => r.2 < s.1

theorem has_iff {ranges : CodeRanges} (h : Ascending ranges) (n : Nat) :
    has ranges n = true ↔ ∃ r ∈ ranges, r.1 ≤ n ∧ n ≤ r.2 := by
  induction ranges with
  | nil => simp [has]
  | cons r ranges ih =>
    obtain ⟨first, last⟩ := r
    obtain ⟨before, h⟩ := List.pairwise_cons.1 h
    by_cases hn : n ≤ last
    · simp only [has, hn, ↓reduceIte, decide_eq_true_eq, List.mem_cons, exists_eq_or_imp, and_true]
      refine ⟨Or.inl, fun h' => h'.elim id fun ⟨s, hs, le, _⟩ => ?_⟩
      have := before s hs
      omega
    · simp [has, hn, ih h]

end CodeRanges

end Likeness
