import Likeness.Proofs.PathOrder
import Mathlib.Tactic.SplitIfs

/-!
# The paths of entries

The path of an entry of a folder has the components of the path of the folder, and then the name of the entry
(`Path.components_join`).  What an entry is called decides on its extension (`Path.extension?_join`) and on its place among
the entries of its folder (`Path.compare_of_names`).
-/

namespace Likeness

/-- What the entry of a folder can be called: names are not empty and have no slash, and dots alone mean something else. -/
structure IsEntryName (n : Name) : Prop where
  ne_nil : n ≠ []
  no_slash : '/' ∉ n
  ne_here : n ≠ ['.']
  ne_parent : n ≠ ['.', '.']

instance : DecidablePred IsEntryName := fun n =>
  decidable_of_iff (n ≠ [] ∧ '/' ∉ n ∧ n ≠ ['.'] ∧ n ≠ ['.', '.'])
    ⟨fun ⟨h₁, h₂, h₃, h₄⟩ => ⟨h₁, h₂, h₃, h₄⟩, fun ⟨h₁, h₂, h₃, h₄⟩ => ⟨h₁, h₂, h₃, h₄⟩⟩

/-! ### Parts of a text -/

private theorem exists_segments (text : List Char) : ∃ part parts, segments text = part :: parts := by
  induction text with
  | nil => exact ⟨[], [], rfl⟩
  | cons c text ih =>
    obtain ⟨part, parts, h⟩ := ih
    unfold segments
    split
    · exact ⟨_, _, rfl⟩
    · rw [h]
      exact ⟨_, _, rfl⟩

private theorem segments_append_slash (s t : List Char) : segments (s ++ '/' :: t) = segments s ++ segments t := by
  induction s with
  | nil => rfl
  | cons c s ih =>
    obtain ⟨part, parts, h⟩ := exists_segments s
    rw [List.cons_append, segments, segments, ih, h]
    split <;> rfl

private theorem segments_of_no_slash {n : Name} (h : '/' ∉ n) : segments n = [n] := by
  induction n with
  | nil => rfl
  | cons c n ih =>
    rw [List.mem_cons, not_or] at h
    rw [segments, if_neg (Ne.symm h.1), ih h.2]

private theorem eq_nil_of_segments {text : List Char} (h : segments text = [[]]) : text = [] := by
  cases text with
  | nil => rfl
  | cons c text =>
    obtain ⟨part, parts, hparts⟩ := exists_segments text
    rw [segments, hparts] at h
    split at h <;> simp at h

/-! ### Components -/

namespace Path

/-- What the first part of a path stands for. -/
private def opening (part : Name) (more : Prop) [Decidable more] : List Component :=
  if part = [] ∧ more then [.root] else if part = ['.'] then [.here] else (componentOf part).toList

private theorem components_of_segments {p : Path} {part : Name} {parts : List Name} (h : segments p.text = part :: parts) :
    p.components = opening part (parts ≠ []) ++ parts.filterMap componentOf := by
  unfold components split opening
  rw [h]
  dsimp only
  split_ifs
  · rfl
  · rfl
  · rw [List.filterMap_cons]
    cases componentOf part <;> rfl

private theorem componentOf_name {n : Name} (hn : IsEntryName n) : componentOf n = some (.name n) := by
  simp [componentOf, isIdle, hn.ne_nil, hn.ne_here, hn.ne_parent]

theorem components_join (p : Path) {n : Name} (hn : IsEntryName n) : (p.join n).components = p.components ++ [.name n] := by
  have hname := segments_of_no_slash hn.no_slash
  have hlast : [n].filterMap componentOf = [.name n] := by rw [List.filterMap_cons, componentOf_name hn, List.filterMap_nil]
  obtain ⟨text⟩ := p
  unfold join
  by_cases hnil : text = []
  · subst hnil
    rw [if_pos (.inl rfl), List.nil_append, @components_of_segments ⟨n⟩ n [] hname, opening, if_neg (fun h => h.2 rfl),
      if_neg hn.ne_here, componentOf_name hn]
    rfl
  obtain ⟨part, parts, hparts⟩ := exists_segments text
  by_cases hslash : text.getLast? = some '/'
  · -- the last part is empty and gives way to the name
    rw [if_pos (.inr hslash)]
    obtain ⟨s, rfl⟩ := List.getLast?_eq_some_iff.1 hslash
    obtain ⟨first, rest, hs⟩ := exists_segments s
    have hfolder : segments (s ++ ['/']) = first :: (rest ++ [[]]) := by
      rw [segments_append_slash, hs]
      rfl
    have hentry : segments (s ++ ['/'] ++ n) = first :: (rest ++ [n]) := by
      rw [List.append_assoc]
      change segments (s ++ '/' :: n) = _
      rw [segments_append_slash, hs, hname]
      rfl
    rw [@components_of_segments ⟨_⟩ _ _ hfolder, @components_of_segments ⟨_⟩ _ _ hentry]
    rw [List.filterMap_append, List.filterMap_append, hlast, ← List.append_assoc]
    simp [opening, componentOf, isIdle]
  · have hentry : segments (text ++ '/' :: n) = part :: (parts ++ [n]) := by
      rw [segments_append_slash, hparts, hname]
      rfl
    have hfirst : parts = [] → part ≠ [] := by
      rintro rfl rfl
      exact hnil (eq_nil_of_segments hparts)
    rw [if_neg (not_or.2 ⟨hnil, hslash⟩), @components_of_segments ⟨_⟩ _ _ hparts, @components_of_segments ⟨_⟩ _ _ hentry]
    have hopening : opening part (parts ++ [n] ≠ []) = opening part (parts ≠ []) := by
      unfold opening
      by_cases hparts : parts = []
      · simp [hfirst hparts]
      · simp [hparts]
    rw [hopening, List.filterMap_append, List.append_assoc, hlast]

theorem components_foldl_join (p : Path) {names : List Name} (h : ∀ n ∈ names, IsEntryName n) :
    (names.foldl join p).components = p.components ++ names.map .name := by
  induction names generalizing p with
  | nil => rw [List.foldl_nil, List.map_nil, List.append_nil]
  | cons n names ih =>
    rw [List.foldl_cons, ih _ fun m hm => h m (List.mem_cons_of_mem n hm), components_join p (h n List.mem_cons_self),
      List.append_assoc]
    rfl

theorem extension?_join (p : Path) {n : Name} (hn : IsEntryName n) : (p.join n).extension? = extensionOf? n := by
  rw [extension?, fileName?, components_join p hn, List.getLast?_concat]
  rfl

theorem compare_of_names {p q folder : Path} {a b : Name} {s t : List Component}
    (hp : p.components = folder.components ++ .name a :: s) (hq : q.components = folder.components ++ .name b :: t)
    (h : compareNames a b = .lt) : p.compare q = .lt := by
  have hname : Component.compare (.name a) (.name b) = .lt := h
  rw [compare, hp, hq, compareComponents_append_left, compareComponents, hname]
  rfl

end Path

end Likeness
