import Likeness.Keyed
import Likeness.Token.Vocabulary
import Std.Data.TreeMap

/-!
# Grams

A gram is a window of consecutive tokens, written with single spaces between them.  Grams are counted in a list of
entries, one for each gram that occurs.  `gramCounts` lists them in the order of their texts, but nothing fixes the order in
which they are visited: a sum over many entries may depend on it, as it is rounded on the way, and so the order is a
parameter of what is added up (`GramCounts.Order`).

* `windows` lists the windows of a width, and `gramCounts` counts them;
* `GramCounts.count?` looks a gram up, and `GramCounts.index` holds the same answers in a search tree
  (`getElem?_index`), which is how they are found among many.
-/

namespace Likeness

/-- How often each gram occurs, one entry a gram. -/
abbrev GramCounts := List (List Char × UInt32)

namespace GramCounts

/-- The count of a gram, if it has an entry. -/
def count? (counts : GramCounts) (gram : List Char) : Option UInt32 :=
  counts.lookup gram

/-- An order in which entries may be visited.  Counts that are made anew from the same sequence may be visited in another
one. -/
structure Order where
  visit : GramCounts → GramCounts
  perm : ∀ counts, (visit counts).Perm counts

/-- The order in which the entries are listed. -/
def Order.asListed : Order :=
  ⟨id, fun counts => .refl counts⟩

/-- Entries may be visited in every order that there is. -/
theorem Order.exists_visit_eq {visited counts : GramCounts} (h : visited.Perm counts) :
    ∃ order : Order, order.visit counts = visited := by
  refine ⟨⟨fun others => if others = counts then visited else others, fun others => ?_⟩, if_pos rfl⟩
  split
  · next same => rwa [same]
  · exact .refl others

/-- A search tree of counts. -/
abbrev Index := Std.TreeMap (List Char) UInt32

/-- The entries as a search tree.  An earlier entry hides a later one of the same gram. -/
def index (counts : GramCounts) : Index :=
  counts.foldr (fun (key, n) tree => tree.insert key n) ∅

/-- Counts one more occurrence of a gram. -/
def Index.bump (tree : Index) (gram : List Char) : Index :=
  tree.insert gram (tree.getD gram 0 + 1)

@[simp] theorem getElem?_index (counts : GramCounts) (gram : List Char) :
    counts.index[gram]? = counts.count? gram := by
  induction counts with
  | nil => simp [index, count?]
  | cons entry counts ih =>
    obtain ⟨key, n⟩ := entry
    have step : index ((key, n) :: counts) = (index counts).insert key n := rfl
    rw [step, Std.TreeMap.getElem?_insert, ih]
    by_cases h : key = gram
    · simp [count?, h]
    · simp [count?, h, lookup_cons_of_ne (Ne.symm h)]

/-- A search tree lists each gram once. -/
theorem distinct_toList (tree : Index) : tree.toList.Pairwise (·.1 ≠ ·.1) :=
  tree.distinct_keys_toList.imp fun h same => h (by simp [same])

/-- The entries of a search tree have the counts of the tree. -/
@[simp] theorem count?_toList (tree : Index) (gram : List Char) : count? tree.toList gram = tree[gram]? := by
  apply Option.ext
  intro n
  rw [count?, lookup_eq_some_iff_mem (distinct_toList tree), Std.TreeMap.mem_toList_iff_getElem?_eq_some]

end GramCounts

/-- The windows of a width that is not zero, from left to right. -/
def windows (width : Nat) : List α → List (List α)
  | [] => []
  | x :: xs =>
    let window := (x :: xs).take width
    if window.length = width then window :: windows width xs else []

/-- A window of tokens written as one text. -/
def gram (window : List Token) : List Char :=
  [' '].intercalate window

/-- Counts the grams of a width in a sequence. -/
def gramCounts (width : Nat) (sequence : List Token) : GramCounts :=
  (((windows width sequence).map gram).foldl GramCounts.Index.bump ∅).toList

end Likeness
