/-!
# Lists of entries

A list of entries holds values under keys: the entries of a folder, the keys of a table, the counts of grams.  If a key has
several entries, the first one counts.  Keys are looked up by the library's own lookup.

* `setKey` sets a key and leaves the others alone (`lookup_setKey_self`, `lookup_setKey_of_ne`);
* `lookup_eq_some_iff_mem` says that with distinct keys the lookup finds exactly the entries.
-/

namespace Likeness

variable {α β : Type} [BEq α]

/-- The entries after setting a key; a new one comes last. -/
def setKey : List (α × β) → α → β → List (α × β)
  | [], key, value => [(key, value)]
  | (other, held) :: entries, key, value =>
    if other == key then (key, value) :: entries else (other, held) :: setKey entries key value

variable [LawfulBEq α]

/-- An entry does not matter to the lookup of another key. -/
theorem lookup_cons_of_ne {key wanted : α} (h : wanted ≠ key) (value : β) (entries : List (α × β)) :
    ((key, value) :: entries).lookup wanted = entries.lookup wanted := by
  rw [List.lookup_cons, beq_eq_false_iff_ne.2 h]

@[simp] theorem lookup_setKey_self (entries : List (α × β)) (key : α) (value : β) :
    (setKey entries key value).lookup key = some value := by
  induction entries with
  | nil => simp [setKey]
  | cons entry entries ih =>
    obtain ⟨other, held⟩ := entry
    by_cases h : other = key
    · simp [setKey, h]
    · simp [setKey, h, lookup_cons_of_ne (Ne.symm h), ih]

theorem lookup_setKey_of_ne (entries : List (α × β)) {key wanted : α} (value : β) (h : wanted ≠ key) :
    (setKey entries key value).lookup wanted = entries.lookup wanted := by
  induction entries with
  | nil => exact lookup_cons_of_ne h value []
  | cons entry entries ih =>
    obtain ⟨other, held⟩ := entry
    by_cases ho : other = key
    · simp [setKey, ho, lookup_cons_of_ne h]
    · simp [setKey, ho, List.lookup_cons, ih]

theorem mem_of_lookup_eq_some {entries : List (α × β)} {key : α} {value : β}
    (h : entries.lookup key = some value) : (key, value) ∈ entries := by
  obtain ⟨before, after, rfl, _⟩ := List.lookup_eq_some_iff.1 h
  simp

/-- With distinct keys the lookup finds exactly the entries. -/
theorem lookup_eq_some_iff_mem {entries : List (α × β)} (distinct : entries.Pairwise (·.1 ≠ ·.1)) {key : α} {value : β} :
    entries.lookup key = some value ↔ (key, value) ∈ entries := by
  refine ⟨mem_of_lookup_eq_some, fun h => ?_⟩
  induction entries with
  | nil => simp at h
  | cons entry entries ih =>
    rw [List.pairwise_cons] at distinct
    rcases List.mem_cons.1 h with rfl | h
    · simp
    · rw [lookup_cons_of_ne (Ne.symm (distinct.1 _ h))]
      exact ih distinct.2 h

end Likeness
