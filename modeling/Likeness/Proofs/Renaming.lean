import Likeness.Proofs.Orders
import Likeness.Proofs.Rendering
import Mathlib.Data.Set.Function

/-!
# What the normal form decides

Two streams have the same normal form if and only if one is the other with its identifiers renamed, where the words that
stand for values do not matter.

* (equal, then renamed) A name goes to the name that has the same number; `standIn_eq_iff` says what two equal entries of
  normal forms have in common.
* (renamed, then equal) The bijection of the identifiers, with all other tokens kept, is a renaming of the stream.
* Streams that differ by a renaming and have equally many words for values cannot be told apart by a comparison, in whichever
  orders it visits grams (`compareAnalysesBy_of_normalForm_eq`).
-/

namespace Likeness

/-- The tokens that a renaming must not touch. -/
def IsFixed (t : Token) : Prop :=
  t.kind = .keyword ∨ t.kind = .operator

/-- A stream without the words that stand for values. -/
def withoutLiterals (stream : List Token) : List Token :=
  stream.filter (· ∉ excludedLiterals)

/-- One stream is the other with its identifiers renamed, one to one. -/
structure SameUpToRenaming (s t : List Token) : Prop where
  length : s.length = t.length
  /-- Where either stream has a keyword or an operator, the other has the same. -/
  fixed : ∀ i, (hs : i < s.length) → (ht : i < t.length) → IsFixed s[i] ∨ IsFixed t[i] → s[i] = t[i]
  /-- One bijection of the names serves all positions. -/
  bijection : ∃ f : Token → Token, Set.BijOn f {x | x ∈ identifiers s} {y | y ∈ identifiers t} ∧
    ∀ i, (hs : i < s.length) → (ht : i < t.length) → s[i].kind = .identifier → t[i] = f s[i]

/-! ### Kinds of lexemes -/

/-- Of lexemes, only the words for values are dropped. -/
private theorem meaningful_eq_withoutLiterals {stream : List Token} (h : ∀ t ∈ stream, IsLexeme t) :
    meaningful stream = withoutLiterals stream := by
  refine List.filter_congr fun t ht => ?_
  simp [kind_eq_excludedLiteral_iff, kind_ne_other_of_isLexeme (h t ht)]

private theorem isFixed_of_ne {stream : List Token} {t : Token} (ht : t ∈ meaningful stream) (h : t.kind ≠ .identifier) :
    IsFixed t := by
  obtain ⟨_, hexcluded, hother⟩ := mem_meaningful.1 ht
  unfold IsFixed
  cases hkind : t.kind <;> simp_all

private theorem not_isFixed {t : Token} (h : t.kind = .identifier) : ¬ IsFixed t := by
  simp [IsFixed, h]

/-! ### Equal normal forms -/

private theorem standIn_of_identifier {all : List Token} {t : Token} (h : t.kind = .identifier) :
    standIn all t = numberedName (all.idxOf t) :=
  if_pos h

private theorem standIn_of_ne {all : List Token} {t : Token} (h : t.kind ≠ .identifier) : standIn all t = t :=
  if_neg h

/-- Two entries of normal forms are equal if they come from the same token or from names at the same place. -/
private theorem standIn_eq_iff {n m : List Token} {t u : Token} :
    standIn n t = standIn m u ↔
      if t.kind = .identifier then u.kind = .identifier ∧ n.idxOf t = m.idxOf u else t = u := by
  have hkinds : standIn n t = standIn m u → t.kind = u.kind := by
    intro h
    rw [← kind_standIn n t, h, kind_standIn]
  split
  · next ht =>
    constructor
    · intro h
      have hu : u.kind = .identifier := by rw [← hkinds h, ht]
      rw [standIn_of_identifier ht, standIn_of_identifier hu] at h
      exact ⟨hu, numberedName_injective h⟩
    · rintro ⟨hu, hplace⟩
      rw [standIn_of_identifier ht, standIn_of_identifier hu, hplace]
  · next ht =>
    constructor
    · intro h
      have hu : u.kind ≠ .identifier := by
        rw [← hkinds h]
        exact ht
      rwa [standIn_of_ne ht, standIn_of_ne hu] at h
    · rintro rfl
      rw [standIn_of_ne ht, standIn_of_ne ht]

/-- The name of the second list that has the same number as a name of the first. -/
private def counterpart (n m : List Token) (x : Token) : Token :=
  m.getD (n.idxOf x) []

private theorem counterpart_eq {n m : List Token} {x y : Token} (hy : y ∈ m) (h : n.idxOf x = m.idxOf y) :
    counterpart n m x = y := by
  have hlt : m.idxOf y < m.length := List.idxOf_lt_length_of_mem hy
  rw [counterpart, h, List.getD_eq_getElem?_getD, List.getElem?_eq_getElem hlt, Option.getD_some]
  exact List.getElem_idxOf hlt

private theorem exists_getElem_of_mem_identifiers {stream : List Token} {x : Token} (hx : x ∈ identifiers stream) :
    ∃ i, ∃ hi : i < stream.length, stream[i] = x ∧ stream[i].kind = .identifier := by
  obtain ⟨hmem, hkind⟩ := mem_identifiers.1 hx
  obtain ⟨i, hi, rfl⟩ := List.mem_iff_getElem.1 hmem
  exact ⟨i, hi, rfl, hkind⟩

section Decide

variable {s t : List Token}

private theorem length_of_normalForm_eq (h : normalForm s = normalForm t) :
    (meaningful s).length = (meaningful t).length := by
  have hlength := congrArg List.length h
  simpa only [normalForm_eq_map, List.length_map] using hlength

private theorem getElem_of_normalForm_eq (h : normalForm s = normalForm t) {i : Nat} (hs : i < (meaningful s).length)
    (ht : i < (meaningful t).length) :
    standIn (names (identifiers s)) (meaningful s)[i] = standIn (names (identifiers t)) (meaningful t)[i] := by
  rw [normalForm_eq_map, normalForm_eq_map] at h
  have hget := List.getElem_of_eq h (by rwa [List.length_map])
  rwa [List.getElem_map, List.getElem_map] at hget

/-- Where one stream has a name, the other has the name with the same number. -/
private theorem counterpart_getElem (h : normalForm s = normalForm t) {i : Nat} (hs : i < (meaningful s).length)
    (ht : i < (meaningful t).length) (hkind : (meaningful s)[i].kind = .identifier) :
    (meaningful t)[i].kind = .identifier ∧
      (names (identifiers s)).idxOf (meaningful s)[i] = (names (identifiers t)).idxOf (meaningful t)[i] ∧
      counterpart (names (identifiers s)) (names (identifiers t)) (meaningful s)[i] = (meaningful t)[i] := by
  have heq := standIn_eq_iff.1 (getElem_of_normalForm_eq h hs ht)
  rw [if_pos hkind] at heq
  obtain ⟨hkind', hplace⟩ := heq
  have hmem : (meaningful t)[i] ∈ identifiers t :=
    mem_identifiers.2 ⟨(mem_meaningful.1 (List.getElem_mem ht)).1, hkind'⟩
  exact ⟨hkind', hplace, counterpart_eq (mem_names.2 hmem) hplace⟩

private theorem bijOn_counterpart (h : normalForm s = normalForm t) :
    Set.BijOn (counterpart (names (identifiers s)) (names (identifiers t))) {x | x ∈ identifiers (meaningful s)}
      {y | y ∈ identifiers (meaningful t)} := by
  have hlength := length_of_normalForm_eq h
  refine ⟨?_, ?_, ?_⟩
  · intro x hx
    obtain ⟨i, hs, rfl, hkind⟩ := exists_getElem_of_mem_identifiers hx
    obtain ⟨hkind', _, himage⟩ := counterpart_getElem h hs (hlength ▸ hs) hkind
    rw [himage]
    exact mem_identifiers.2 ⟨List.getElem_mem _, hkind'⟩
  · intro x hx y hy hxy
    obtain ⟨i, hi, rfl, hkindi⟩ := exists_getElem_of_mem_identifiers hx
    obtain ⟨j, hj, rfl, hkindj⟩ := exists_getElem_of_mem_identifiers hy
    obtain ⟨_, hplacei, himagei⟩ := counterpart_getElem h hi (hlength ▸ hi) hkindi
    obtain ⟨_, hplacej, himagej⟩ := counterpart_getElem h hj (hlength ▸ hj) hkindj
    rw [himagei, himagej] at hxy
    have hmem : (meaningful s)[i] ∈ names (identifiers s) := by
      rw [mem_names, ← identifiers_meaningful]
      exact hx
    refine (List.idxOf_inj hmem).1 ?_
    rw [hplacei, hplacej, hxy]
  · intro y hy
    obtain ⟨i, ht, rfl, hkind'⟩ := exists_getElem_of_mem_identifiers hy
    have hs : i < (meaningful s).length := hlength ▸ ht
    -- an entry of the other stream is an identifier too, as equal entries of normal forms are of one kind
    have hkind : (meaningful s)[i].kind = .identifier := by
      have hkinds := congrArg Token.kind (getElem_of_normalForm_eq h hs ht)
      rw [kind_standIn, kind_standIn] at hkinds
      rw [hkinds, hkind']
    refine ⟨(meaningful s)[i], ?_, (counterpart_getElem h hs ht hkind).2.2⟩
    exact mem_identifiers.2 ⟨List.getElem_mem _, hkind⟩

/-- Streams with the same normal form are the same up to a renaming. -/
theorem sameUpToRenaming_of_normalForm_eq (h : normalForm s = normalForm t) :
    SameUpToRenaming (meaningful s) (meaningful t) := by
  refine ⟨length_of_normalForm_eq h, ?_, _, bijOn_counterpart h, ?_⟩
  · intro i hs ht hfixed
    have hget := getElem_of_normalForm_eq h hs ht
    have hkinds := congrArg Token.kind hget
    rw [kind_standIn, kind_standIn] at hkinds
    have hne : (meaningful s)[i].kind ≠ .identifier := by
      intro hkind
      rcases hfixed with hfixed | hfixed
      · exact not_isFixed hkind hfixed
      · exact not_isFixed (hkinds ▸ hkind) hfixed
    have heq := standIn_eq_iff.1 hget
    rwa [if_neg hne] at heq
  · intro i hs ht hkind
    exact (counterpart_getElem h hs ht hkind).2.2.symm

/-! ### Renamed streams -/

/-- Streams that are the same up to a renaming have the same normal form. -/
theorem normalForm_eq_of_sameUpToRenaming (h : SameUpToRenaming (meaningful s) (meaningful t)) :
    normalForm s = normalForm t := by
  obtain ⟨f, hbij, hat⟩ := h.bijection
  let g : Token → Token := fun x => if x.kind = .identifier then f x else x
  have hg : ∀ x, x.kind = .identifier → g x = f x := fun x hx => if_pos hx
  have hg' : ∀ x, x.kind ≠ .identifier → g x = x := fun x hx => if_neg hx
  have hmap : meaningful t = (meaningful s).map g := by
    refine List.ext_getElem (by rw [List.length_map, h.length]) fun i ht hmap => ?_
    have hs : i < (meaningful s).length := h.length ▸ ht
    rw [List.getElem_map]
    by_cases hkind : (meaningful s)[i].kind = .identifier
    · rw [hat i hs ht hkind, hg _ hkind]
    · rw [hg' _ hkind]
      exact (h.fixed i hs ht (.inl (isFixed_of_ne (List.getElem_mem hs) hkind))).symm
  have hrenaming : IsRenaming g (meaningful s) := by
    refine ⟨?_, ?_, ?_⟩
    · intro x hx
      by_cases hkind : x.kind = .identifier
      · have himage := hbij.mapsTo (mem_identifiers.2 ⟨hx, hkind⟩)
        rw [hg x hkind, hkind]
        exact (mem_identifiers.1 himage).2
      · rw [hg' x hkind]
    · intro x _ hfixed
      exact hg' x fun hkind => not_isFixed hkind hfixed
    · intro x hx y hy hxy
      rw [hg x (mem_identifiers.1 hx).2, hg y (mem_identifiers.1 hy).2] at hxy
      exact hbij.injOn hx hy hxy
  calc normalForm s = normalForm (meaningful s) := (normalForm_meaningful s).symm
    _ = normalForm ((meaningful s).map g) := (normalForm_map hrenaming).symm
    _ = normalForm (meaningful t) := by rw [hmap]
    _ = normalForm t := normalForm_meaningful t

end Decide

/-! ### Comparisons -/

/-- A comparison reads the tokens of an analysis only for their number, and all else comes from the normal form. -/
private theorem compareAnalysesBy_of_normalForm_eq {s t : List Token} (h : normalForm s = normalForm t)
    (hlength : s.length = t.length) (orders : GramOrders) (weights : Weights) (x : Analysis) :
    compareAnalysesBy orders weights (.ofTokens s) x = compareAnalysesBy orders weights (.ofTokens t) x ∧
      compareAnalysesBy orders weights x (.ofTokens s) = compareAnalysesBy orders weights x (.ofTokens t) := by
  have hkeywords : keywordTally s = keywordTally t := by
    rw [← keywordTally_normalForm s, h, keywordTally_normalForm]
  have hoperators : operatorTally s = operatorTally t := by
    rw [← operatorTally_normalForm s, h, operatorTally_normalForm]
  have hidentifiers : identifierSequence s = identifierSequence t := by
    rw [← identifierSequence_normalForm s, h, identifierSequence_normalForm]
  unfold compareAnalysesBy Analysis.ofTokens Analysis.tokenCount
  rw [hkeywords, hoperators, hidentifiers, h, hlength]
  exact ⟨rfl, rfl⟩

private theorem length_withoutLiterals (stream : List Token) :
    stream.length = stream.countP (· ∈ excludedLiterals) + (withoutLiterals stream).length := by
  have hlength : stream.length = _ := List.length_eq_countP_add_countP (· ∈ excludedLiterals)
  rw [withoutLiterals, ← List.countP_eq_length_filter, hlength]
  simp

private theorem length_eq_of_normalForm_eq {s t : List Token} (hs : ∀ x ∈ s, IsLexeme x) (ht : ∀ x ∈ t, IsLexeme x)
    (h : normalForm s = normalForm t) (hcount : s.countP (· ∈ excludedLiterals) = t.countP (· ∈ excludedLiterals)) :
    s.length = t.length := by
  have hkept := length_of_normalForm_eq h
  rw [meaningful_eq_withoutLiterals hs, meaningful_eq_withoutLiterals ht] at hkept
  rw [length_withoutLiterals s, length_withoutLiterals t, hcount, hkept]

/-- The normal forms of two texts are equal if and only if their tokens are the same up to a renaming once the words for
values are dropped.  If there are equally many of these too, then no comparison with a third analysis, from either side and
under any weights, tells the two apart: visiting grams in the same orders it finds the same, and so the same comparisons are
possible for both.  For sequences of moderate length there is but one, and the two need not even be compared in the same
orders. -/
theorem normalForm_eq_iff_sameUpToRenaming (a b : List Char) :
    (normalForm (tokens a) = normalForm (tokens b) ↔
      SameUpToRenaming (withoutLiterals (tokens a)) (withoutLiterals (tokens b))) ∧
    (SameUpToRenaming (withoutLiterals (tokens a)) (withoutLiterals (tokens b)) →
      (tokens a).countP (· ∈ excludedLiterals) = (tokens b).countP (· ∈ excludedLiterals) →
      ∀ weights x, let u := Analysis.ofTokens (tokens a)
        let v := Analysis.ofTokens (tokens b)
        (∀ orders, compareAnalysesBy orders weights u x = compareAnalysesBy orders weights v x ∧
          compareAnalysesBy orders weights x u = compareAnalysesBy orders weights x v) ∧
        (u.IsModerate → x.IsModerate → ∀ orders orders',
          compareAnalysesBy orders weights u x = compareAnalysesBy orders' weights v x ∧
            compareAnalysesBy orders weights x u = compareAnalysesBy orders' weights x v)) := by
  have ha : ∀ x ∈ tokens a, IsLexeme x := fun x hx => isLexeme_of_mem_tokens hx
  have hb : ∀ x ∈ tokens b, IsLexeme x := fun x hx => isLexeme_of_mem_tokens hx
  rw [← meaningful_eq_withoutLiterals ha, ← meaningful_eq_withoutLiterals hb]
  refine ⟨⟨sameUpToRenaming_of_normalForm_eq, normalForm_eq_of_sameUpToRenaming⟩, ?_⟩
  intro hsame hcount weights x u v
  have hnormal : normalForm (tokens a) = normalForm (tokens b) := normalForm_eq_of_sameUpToRenaming hsame
  have heq := fun orders =>
    compareAnalysesBy_of_normalForm_eq hnormal (length_eq_of_normalForm_eq ha hb hnormal hcount) orders weights x
  refine ⟨heq, fun hu hx orders orders' => ⟨?_, ?_⟩⟩
  · rw [compareAnalysesBy_eq hu hx orders orders', (heq orders').1]
  · rw [compareAnalysesBy_eq hx hu orders orders', (heq orders').2]

/-- A name may be one that numbering would give, and words for values may stand elsewhere. -/
theorem comparison_of_numbered_names :
    let a := "x = ID1 + x == null".toList
    let b := "ID1 = true y + ID1 ==".toList
    let u := Analysis.ofTokens (tokens a)
    let v := Analysis.ofTokens (tokens b)
    SameUpToRenaming (withoutLiterals (tokens a)) (withoutLiterals (tokens b)) ∧
      (∀ orders weights x, compareAnalysesBy orders weights u x = compareAnalysesBy orders weights v x ∧
        compareAnalysesBy orders weights x u = compareAnalysesBy orders weights x v) ∧
      ∀ orders orders' weights, compareAnalysesBy orders weights v u = compareAnalysesBy orders' weights v v := by
  intro a b u v
  obtain ⟨hiff, hcompare⟩ := normalForm_eq_iff_sameUpToRenaming a b
  have hsame := hiff.1 (by decide +kernel)
  have hcount : (tokens a).countP (· ∈ excludedLiterals) = (tokens b).countP (· ∈ excludedLiterals) := by decide +kernel
  have hu : u.IsModerate := Analysis.isModerate_ofTokens (by decide +kernel)
  have hv : v.IsModerate := Analysis.isModerate_ofTokens (by decide +kernel)
  refine ⟨hsame, fun orders weights x => (hcompare hsame hcount weights x).1 orders, fun orders orders' weights => ?_⟩
  exact ((hcompare hsame hcount weights v).2 hu hv orders orders').2

end Likeness
