import Likeness.Vector.Tally

/-!
# Counts of tokens

What stands in the slots of a tally.

* `Tally.count_ofSlots`: with fewer than 2^32 tokens, a slot holds the number of the tokens that have it;
* `Tally.isSum_ofSlots`: the tally of two streams in a row is the sum of their tallies.
-/

namespace Likeness.Tally

/-- The count in a slot, as a number; a slot that a tally does not have counts nothing. -/
def count (v : Tally) (slot : Nat) : Nat :=
  ((v.get? slot).getD 0).toNat

theorem count_of_le {v : Tally} {slot : Nat} (h : v.dimension ≤ slot) : v.count slot = 0 := by
  rw [count, get?, List.getElem?_eq_none h]
  rfl

/-- A tally is zero if no slot counts anything. -/
theorem isZero_iff {v : Tally} : v.isZero = true ↔ ∀ slot, v.count slot = 0 := by
  simp only [isZero, List.all_eq_true, beq_iff_eq, count, get?]
  constructor
  · intro h slot
    cases hn : v.counts[slot]? with
    | none => rfl
    | some n => rw [h n (List.mem_of_getElem? hn), Option.getD_some, UInt32.toNat_zero]
  · intro h n hn
    obtain ⟨slot, hslot⟩ := List.mem_iff_getElem?.1 hn
    have hcount := h slot
    rw [hslot, Option.getD_some] at hcount
    exact UInt32.toNat_inj.1 hcount

/-- A tally is the sum of two others if all have the same slots and it counts in each what both count there. -/
structure IsSum (w u v : Tally) : Prop where
  dimension_left : w.dimension = u.dimension
  dimension_right : w.dimension = v.dimension
  count : ∀ slot, w.count slot = u.count slot + v.count slot

private theorem get?_bump (v : Tally) (slot i : Nat) :
    (v.bump slot).get? i = (v.get? i).map fun n => if i = slot then n + 1 else n := by
  unfold bump get?
  rw [List.getElem?_modify]
  by_cases h : i = slot
  · subst h
    simp
  · simp [h, Ne.symm h]

private theorem get?_foldl_bump (slots : List Nat) (v : Tally) (i : Nat) :
    (slots.foldl bump v).get? i = (v.get? i).map (· + UInt32.ofNat (slots.count i)) := by
  induction slots generalizing v with
  | nil => simp
  | cons slot slots ih =>
    rw [List.foldl_cons, ih, get?_bump, Option.map_map, List.count_cons]
    congr 1
    funext n
    by_cases h : i = slot
    · subst h
      simp [UInt32.ofNat_add, UInt32.add_assoc, UInt32.add_comm]
    · simp [h, Ne.symm h]

theorem get?_ofSlots {n i : Nat} (slot : Token → Option Nat) (stream : List Token) :
    (ofSlots n slot stream).get? i =
      if i < n then some (UInt32.ofNat ((stream.filterMap slot).count i)) else none := by
  unfold ofSlots
  rw [get?_foldl_bump]
  unfold get? zeroed
  by_cases h : i < n <;> simp [h]

private theorem count_filterMap_le (slot : Token → Option Nat) (stream : List Token) (i : Nat) :
    (stream.filterMap slot).count i ≤ stream.length :=
  Nat.le_trans List.count_le_length (List.length_filterMap_le _ _)

/-- A slot holds the number of the tokens that have it, as long as the counts do not overflow. -/
theorem count_ofSlots {n i : Nat} (hi : i < n) (slot : Token → Option Nat) {stream : List Token}
    (few : stream.length < UInt32.size) : (ofSlots n slot stream).count i = (stream.filterMap slot).count i := by
  have hle := count_filterMap_le slot stream i
  unfold count
  rw [get?_ofSlots, if_pos hi, Option.getD_some, UInt32.toNat_ofNat_of_lt' (Nat.lt_of_le_of_lt hle few)]

theorem count_ofSlots_of_le {n i : Nat} (hi : n ≤ i) (slot : Token → Option Nat) (stream : List Token) :
    (ofSlots n slot stream).count i = 0 :=
  count_of_le (by rwa [dimension_ofSlots])

/-- The tally of two streams in a row is the sum of their tallies. -/
theorem isSum_ofSlots (n : Nat) (slot : Token → Option Nat) {first second : List Token}
    (few : (first ++ second).length < UInt32.size) :
    IsSum (ofSlots n slot (first ++ second)) (ofSlots n slot first) (ofSlots n slot second) := by
  refine ⟨by simp, by simp, ?_⟩
  intro i
  by_cases hi : i < n
  · have hlen : (first ++ second).length = first.length + second.length := List.length_append
    rw [count_ofSlots hi slot few, count_ofSlots hi slot (by omega), count_ofSlots hi slot (by omega),
      List.filterMap_append, List.count_append]
  · rw [Nat.not_lt] at hi
    simp only [count_ofSlots_of_le hi]

end Likeness.Tally
