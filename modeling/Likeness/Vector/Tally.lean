import Likeness.Token.Vocabulary

/-!
# Tallies

A tally counts how often each entry of an ordered vocabulary occurs, one slot an entry.

* `Tally.ofSlots` counts the slots of a list of tokens;
* `keywordTally` and `operatorTally` count the two vocabularies; a delimiter has a slot that stays empty.
-/

namespace Likeness

/-- Counts by slot. -/
structure Tally where
  counts : List UInt32
  deriving DecidableEq, Repr

namespace Tally

/-- The tally with nothing counted. -/
def zeroed (dimension : Nat) : Tally :=
  ⟨List.replicate dimension 0⟩

/-- The number of slots. -/
def dimension (v : Tally) : Nat :=
  v.counts.length

/-- The count in a slot, if there is such a slot. -/
def get? (v : Tally) (slot : Nat) : Option UInt32 :=
  v.counts[slot]?

/-- Whether nothing is counted. -/
def isZero (v : Tally) : Bool :=
  v.counts.all (· == 0)

/-- The sum of all counts. -/
def total (v : Tally) : Nat :=
  v.counts.foldl (fun sum count => sum + count.toNat) 0

/-- Counts one more in a slot.  Outside the tally nothing is counted. -/
def bump (v : Tally) (slot : Nat) : Tally :=
  ⟨v.counts.modify slot (· + 1)⟩

/-- Counts the slots of the tokens that have one. -/
def ofSlots (dimension : Nat) (slot : Token → Option Nat) (stream : List Token) : Tally :=
  (stream.filterMap slot).foldl bump (zeroed dimension)

@[simp] theorem dimension_zeroed (n : Nat) : (zeroed n).dimension = n := by
  simp [zeroed, dimension]

@[simp] theorem dimension_bump (v : Tally) (slot : Nat) : (v.bump slot).dimension = v.dimension := by
  simp [bump, dimension]

private theorem dimension_foldl_bump (v : Tally) (slots : List Nat) :
    (slots.foldl bump v).dimension = v.dimension := by
  induction slots generalizing v with
  | nil => rfl
  | cons slot slots ih => simp [ih]

@[simp] theorem dimension_ofSlots (n : Nat) (slot : Token → Option Nat) (stream : List Token) :
    (ofSlots n slot stream).dimension = n := by
  simp [ofSlots, dimension_foldl_bump]

end Tally

/-- How often each reserved word occurs. -/
def keywordTally (stream : List Token) : Tally :=
  .ofSlots keywords.length keywordSlot stream

/-- How often each operator occurs.  Delimiters are not counted. -/
def operatorTally (stream : List Token) : Tally :=
  .ofSlots operators.length (fun t => if t ∈ delimiters then none else operatorSlot t) stream

end Likeness
