import Likeness.Proofs.Kinds
import Likeness.Proofs.Names
import Mathlib.Data.Finset.Card
import Mathlib.Data.Finset.Image

/-!
# Numberings of names

What it means to number names by first appearance, and that both views of a stream do so.

* `IsNumberingOf` says what a numbering is: numbered names, equal where the names are equal, in which each number is new only
  after all smaller ones.
* `isNumberingOf_identifierSequence` and `IsNumberingOf.unique`: a list of names has one numbering and no other.
* `identifierSequence_isNumbering` adds that the normal form holds the same numbering between its keywords and operators,
  although it keeps a list of its own of the names that it has seen.
-/

namespace Likeness

/-- A list of items numbers a list of names by first appearance. -/
structure IsNumberingOf (items names : List Token) : Prop where
  length : items.length = names.length
  numbered : ∀ item ∈ items, ∃ k, item = numberedName k
  /-- Two places have the same item if and only if they have the same name. -/
  same : ∀ i j : Nat, items[i]? = items[j]? ↔ names[i]? = names[j]?
  /-- A number stands only after all smaller ones. -/
  ordered : ∀ i k : Nat, items[i]? = some (numberedName k) → ∀ j < k, numberedName j ∈ items.take i
  distinct : items.toFinset.card = names.toFinset.card

namespace IsNumberingOf

variable {items items' names : List Token}

/-- Where a name is new, its number is not below that of another numbering that agrees so far. -/
private theorem not_lt_of_new (h : IsNumberingOf items names) (h' : IsNumberingOf items' names) {i k k' : Nat}
    (hagree : items.take i = items'.take i) (hnew : ∀ j < i, names[j]? ≠ names[i]?)
    (hk : items[i]? = some (numberedName k)) (hk' : items'[i]? = some (numberedName k')) : ¬ k < k' := by
  intro hlt
  have hmem := h'.ordered i k' hk' k hlt
  rw [← hagree] at hmem
  obtain ⟨j, hj⟩ := List.mem_iff_getElem?.1 hmem
  rw [List.getElem?_take] at hj
  split at hj
  · next hji => exact hnew j hji ((h.same j i).1 (hj.trans hk.symm))
  · cases hj

/-- A list of names has no two numberings. -/
theorem unique (h : IsNumberingOf items names) (h' : IsNumberingOf items' names) : items = items' := by
  refine List.ext_getElem? fun i => ?_
  induction i using Nat.strong_induction_on with
  | _ i ih =>
    have hagree : items.take i = items'.take i := by
      refine List.ext_getElem? fun j => ?_
      rw [List.getElem?_take, List.getElem?_take]
      split
      · next hji => exact ih j hji
      · rfl
    by_cases hseen : ∃ j < i, names[j]? = names[i]?
    · obtain ⟨j, hji, hname⟩ := hseen
      rw [← (h.same j i).2 hname, ih j hji, (h'.same j i).2 hname]
    · have hnew : ∀ j < i, names[j]? ≠ names[i]? := fun j hji hname => hseen ⟨j, hji, hname⟩
      by_cases hi : i < names.length
      · have hlt : i < items.length := h.length ▸ hi
        have hlt' : i < items'.length := h'.length ▸ hi
        obtain ⟨k, hk⟩ := h.numbered _ (List.getElem_mem hlt)
        obtain ⟨k', hk'⟩ := h'.numbered _ (List.getElem_mem hlt')
        rw [List.getElem?_eq_getElem hlt, List.getElem?_eq_getElem hlt', hk, hk']
        have hitem : items[i]? = some (numberedName k) := by rw [List.getElem?_eq_getElem hlt, hk]
        have hitem' : items'[i]? = some (numberedName k') := by rw [List.getElem?_eq_getElem hlt', hk']
        have hle := h.not_lt_of_new h' hagree hnew hitem hitem'
        have hge := h'.not_lt_of_new h hagree.symm hnew hitem' hitem
        rw [show k = k' by omega]
      · rw [List.getElem?_eq_none (by rw [h.length]; omega), List.getElem?_eq_none (by rw [h'.length]; omega)]

end IsNumberingOf

section

variable {list : List Token}

private theorem getElem?_numbered_eq_iff {i j : Nat} :
    (list.map fun x => numberedName ((names list).idxOf x))[i]? =
      (list.map fun x => numberedName ((names list).idxOf x))[j]? ↔ list[i]? = list[j]? := by
  rw [List.getElem?_map, List.getElem?_map]
  constructor
  · intro h
    cases hi : list[i]? with
    | none => simpa [hi] using h.symm
    | some x =>
      obtain ⟨y, hy, hxy⟩ := Option.map_eq_some_iff.1 (h.symm.trans (congrArg _ hi))
      rw [hy, eq_of_numberedName_idxOf (List.mem_of_getElem? hi) hxy.symm]
  · exact congrArg _

/-- The name with a smaller number stands before a name. -/
private theorem numberedName_mem_take {i k : Nat}
    (hk : (list.map fun x => numberedName ((names list).idxOf x))[i]? = some (numberedName k)) {j : Nat} (hj : j < k) :
    numberedName j ∈ (list.map fun x => numberedName ((names list).idxOf x)).take i := by
  rw [List.getElem?_map, Option.map_eq_some_iff] at hk
  obtain ⟨x, hx, hplace⟩ := hk
  have hk : (names list).idxOf x = k := numberedName_injective hplace
  have hlt : j < (names list).length := by
    have := List.idxOf_lt_length_of_mem (mem_names.2 (List.mem_of_getElem? hx))
    omega
  have hidx : (names list).idxOf (names list)[j] = j := (nodup_names list).idxOf_getElem j hlt
  have hmem : (names list)[j] ∈ list.take i := mem_take_of_idxOf_lt hx (by omega)
  rw [← List.map_take, List.mem_map]
  exact ⟨_, hmem, by rw [hidx]⟩

private theorem card_numbered :
    (list.map fun x => numberedName ((names list).idxOf x)).toFinset.card = list.toFinset.card := by
  have himage : (list.map fun x => numberedName ((names list).idxOf x)).toFinset =
      list.toFinset.image fun x => numberedName ((names list).idxOf x) := by
    ext item
    simp
  rw [himage]
  exact Finset.card_image_of_injOn fun x hx y _ h => eq_of_numberedName_idxOf (List.mem_toFinset.1 hx) h

end

/-- The identifiers of a stream are numbered by first appearance. -/
theorem isNumberingOf_identifierSequence (stream : List Token) :
    IsNumberingOf (identifierSequence stream) (identifiers stream) := by
  rw [identifierSequence_eq_map]
  exact {
    length := List.length_map _
    numbered := fun item hitem => by
      obtain ⟨x, _, rfl⟩ := List.mem_map.1 hitem
      exact ⟨_, rfl⟩
    same := fun _ _ => getElem?_numbered_eq_iff
    ordered := fun _ _ hk _ hj => numberedName_mem_take hk hj
    distinct := card_numbered }

/-- The normal form holds the same numbering, between its keywords and operators. -/
private theorem identifierSequence_eq_filter (stream : List Token) :
    identifierSequence stream = (normalForm stream).filter fun t => t ∉ keywords ∧ t ∉ operators := by
  rw [← identifiers_normalForm, identifiers]
  refine List.filter_congr fun t ht => ?_
  rw [normalForm_eq_map] at ht
  obtain ⟨u, hu, rfl⟩ := List.mem_map.1 ht
  obtain ⟨_, hexcluded, hother⟩ := mem_meaningful.1 hu
  rw [decide_eq_decide, ← kind_eq_keyword_iff, ← kind_eq_operator_iff, kind_standIn]
  cases hkind : u.kind with
  | keyword | operator | identifier => simp
  | excludedLiteral => exact absurd hkind hexcluded
  | other => exact absurd hkind hother

/-- Both views of a stream number its identifiers alike, although each keeps its own list of the names it has seen: the
sequence of identifiers is the normal form without its keywords and operators.  It numbers the identifiers of the stream by
first appearance, and no other list does. -/
theorem identifierSequence_isNumbering (stream : List Token) :
    identifierSequence stream = (normalForm stream).filter (fun t => t ∉ keywords ∧ t ∉ operators) ∧
      IsNumberingOf (identifierSequence stream) (identifiers stream) ∧
      ∀ items, IsNumberingOf items (identifiers stream) → items = identifierSequence stream := by
  have hnumbering := isNumberingOf_identifierSequence stream
  exact ⟨identifierSequence_eq_filter stream, hnumbering, fun items h => h.unique hnumbering⟩

end Likeness
