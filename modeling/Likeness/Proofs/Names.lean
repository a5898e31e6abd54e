import Likeness.Proofs.Lexing
import Likeness.Token.Numbering
import Mathlib.Data.List.Nodup

/-!
# Names and their numbers

Numbering reads a stream with the list of the names seen so far.  As that list only grows at its end, the number of a
name is its place in the list of all names of the stream, and numbering becomes a map that knows no past.

* `nodup_names` says that the list holds each name once, and `mem_take_of_idxOf_lt` that it is in the order in which the
  names appear;
* `normalForm_eq_map` and `identifierSequence_eq_map` put `standIn`, with all names known, in the place of the growing
  list;
* `numberedName_injective` and `kind_numberedName` say that numbered names are told apart, and are identifiers;
* `normalForm_map` says that a renaming does not change the normal form, and `normalForm_normalForm` that numbering
  what is numbered changes nothing.
-/

namespace Likeness

/-- The names of a list, each once, in order of first appearance. -/
def names (list : List Token) : List Token :=
  list.foldl seeName []

/-- The identifiers of a stream. -/
def identifiers (stream : List Token) : List Token :=
  stream.filter (·.kind = .identifier)

/-- The tokens of a stream that do not just stand for values. -/
def meaningful (stream : List Token) : List Token :=
  stream.filter fun t => t.kind ≠ .excludedLiteral ∧ t.kind ≠ .other

/-- What stands for a token in the normal form, if all names are known. -/
def standIn (all : List Token) (t : Token) : Token :=
  if t.kind = .identifier then numberedName (all.idxOf t) else t

/-! ### The growing list of names -/

private theorem isPrefix_seeName (seen : List Token) (name : Token) : seen <+: seeName seen name := by
  unfold seeName
  split
  · exact List.prefix_rfl
  · exact List.prefix_append _ _

private theorem mem_seeName {seen : List Token} {name x : Token} : x ∈ seeName seen name ↔ x ∈ seen ∨ x = name := by
  unfold seeName
  split
  · next h =>
    constructor
    · exact .inl
    · rintro (hx | rfl)
      · exact hx
      · exact h
  · simp

private theorem isPrefix_foldl_seeName (seen list : List Token) : seen <+: list.foldl seeName seen := by
  induction list generalizing seen with
  | nil => exact List.prefix_rfl
  | cons name list ih => exact (isPrefix_seeName seen name).trans (ih (seeName seen name))

private theorem mem_foldl_seeName {seen list : List Token} {x : Token} :
    x ∈ list.foldl seeName seen ↔ x ∈ seen ∨ x ∈ list := by
  induction list generalizing seen with
  | nil => simp
  | cons name list ih => rw [List.foldl_cons, ih, mem_seeName, List.mem_cons, or_assoc]

@[simp] theorem mem_names {list : List Token} {x : Token} : x ∈ names list ↔ x ∈ list := by
  simp [names, mem_foldl_seeName]

/-- A name keeps its place when more names come. -/
private theorem idxOf_seeName {seen : List Token} {name : Token} (list : List Token) :
    (seeName seen name).idxOf name = (list.foldl seeName (seeName seen name)).idxOf name :=
  (isPrefix_foldl_seeName _ list).idxOf_eq_of_mem (mem_seeName.2 (.inr rfl))

private theorem nodup_seeName {seen : List Token} (h : seen.Nodup) (name : Token) : (seeName seen name).Nodup := by
  unfold seeName
  split
  · exact h
  · next hname =>
    rw [← List.concat_eq_append]
    exact h.concat hname

theorem nodup_names (list : List Token) : (names list).Nodup :=
  List.foldlRecOn list seeName List.nodup_nil fun _ h name _ => nodup_seeName h name

private theorem foldl_seeName_drop (list : List Token) (i : Nat) :
    (list.drop i).foldl seeName (names (list.take i)) = names list := by
  rw [names, ← List.foldl_append, List.take_append_drop, names]

/-- A name with a smaller number than the one at a place stands before that place. -/
theorem mem_take_of_idxOf_lt {list : List Token} {i : Nat} {x y : Token} (hx : list[i]? = some x)
    (hlt : (names list).idxOf y < (names list).idxOf x) : y ∈ list.take i := by
  have hgrows : names (list.take i) <+: names list := by
    rw [← foldl_seeName_drop list i]
    exact isPrefix_foldl_seeName _ _
  -- the name at the place is one of those before it, or the next one
  have hplace : (names list).idxOf x ≤ (names (list.take i)).length := by
    obtain ⟨hi, rfl⟩ := List.getElem?_eq_some_iff.1 hx
    rw [← foldl_seeName_drop list i, List.drop_eq_getElem_cons hi, List.foldl_cons, ← idxOf_seeName]
    unfold seeName
    split
    · next hmem => exact Nat.le_of_lt (List.idxOf_lt_length_of_mem hmem)
    · next hmem => simp [List.idxOf_append, hmem]
  exact mem_names.1 ((hgrows.mem_iff_idxOf_lt_length y).2 (Nat.lt_of_lt_of_le hlt hplace))

private theorem numberNames_eq_map (seen list : List Token) :
    numberNames seen list = list.map fun name => numberedName ((list.foldl seeName seen).idxOf name) := by
  induction list generalizing seen with
  | nil => rfl
  | cons name list ih => rw [numberNames, List.map_cons, List.foldl_cons, ih, idxOf_seeName list]

/-- The identifiers of a stream are numbered by their places among all its names. -/
theorem identifierSequence_eq_map (stream : List Token) :
    identifierSequence stream =
      (identifiers stream).map fun name => numberedName ((names (identifiers stream)).idxOf name) :=
  numberNames_eq_map [] (identifiers stream)

private theorem normalFormFrom_eq_map (seen stream : List Token) :
    normalFormFrom seen stream = (meaningful stream).map (standIn ((identifiers stream).foldl seeName seen)) := by
  induction stream generalizing seen with
  | nil => rfl
  | cons t stream ih =>
    unfold normalFormFrom
    cases hkind : t.kind with
    | keyword | operator =>
      have hmeaningful : meaningful (t :: stream) = t :: meaningful stream := by simp [meaningful, hkind]
      have hidentifiers : identifiers (t :: stream) = identifiers stream := by simp [identifiers, hkind]
      rw [hmeaningful, hidentifiers, List.map_cons, ← ih]
      simp [standIn, hkind]
    | identifier =>
      -- the number is given by the list as it is now, and is the same by the list in the end
      have hmeaningful : meaningful (t :: stream) = t :: meaningful stream := by simp [meaningful, hkind]
      have hidentifiers : identifiers (t :: stream) = t :: identifiers stream := by simp [identifiers, hkind]
      rw [hmeaningful, hidentifiers, List.foldl_cons, List.map_cons, ← ih, standIn, if_pos hkind,
        ← idxOf_seeName (identifiers stream)]
    | excludedLiteral | other =>
      have hmeaningful : meaningful (t :: stream) = meaningful stream := by simp [meaningful, hkind]
      have hidentifiers : identifiers (t :: stream) = identifiers stream := by simp [identifiers, hkind]
      rw [hmeaningful, hidentifiers, ← ih]

/-- The normal form of a stream, its identifiers numbered by their places among all its names. -/
theorem normalForm_eq_map (stream : List Token) :
    normalForm stream = (meaningful stream).map (standIn (names (identifiers stream))) :=
  normalFormFrom_eq_map [] stream

theorem length_identifierSequence_le (stream : List Token) : (identifierSequence stream).length ≤ stream.length := by
  rw [identifierSequence_eq_map, List.length_map]
  exact List.length_filter_le _ _

theorem length_normalForm_le (stream : List Token) : (normalForm stream).length ≤ stream.length := by
  rw [normalForm_eq_map, List.length_map]
  exact List.length_filter_le _ _

/-! ### Numbered names -/

theorem numberedName_injective {j k : Nat} (h : numberedName j = numberedName k) : j = k := by
  have hdigits := List.append_cancel_left h
  have := congrArg (Nat.ofDigitChars 10 · 0) hdigits
  simpa using this

theorem isWord_numberedName (k : Nat) : IsWord (numberedName k) := by
  refine ⟨by decide, ?_⟩
  intro c hc
  rcases List.mem_cons.1 hc with rfl | hc
  · decide
  · have hdigit := Nat.isDigit_of_mem_toDigits (by decide) (by decide) hc
    simp [continuesWord, isNumeral_of_isDigit hdigit]

/-- No fixed token starts with the capital letter that numbered names start with. -/
private theorem head?_fixed : ∀ t ∈ keywords ++ operators ++ excludedLiterals, t.head? ≠ some 'I' := by
  decide +kernel

@[simp] theorem kind_numberedName (k : Nat) : (numberedName k).kind = .identifier := by
  have hfixed : numberedName k ∉ keywords ++ operators ++ excludedLiterals := fun h => head?_fixed _ h rfl
  simp only [List.mem_append, not_or] at hfixed
  obtain ⟨⟨hkeyword, hoperator⟩, hexcluded⟩ := hfixed
  have hstart : (numberedName k).head?.any startsWord = true := (isWord_numberedName k).1
  simp [Token.kind, hkeyword, hoperator, hexcluded, hstart]

/-- Names of a list are told apart by their numbers. -/
theorem eq_of_numberedName_idxOf {list : List Token} {x y : Token} (hx : x ∈ list)
    (h : numberedName ((names list).idxOf x) = numberedName ((names list).idxOf y)) : x = y :=
  (List.idxOf_inj (mem_names.2 hx)).1 (numberedName_injective h)

/-! ### Renamings -/

private theorem idxOf_map {f : Token → Token} {list : List Token} {x : Token}
    (inj : ∀ y ∈ list, f y = f x → y = x) : (list.map f).idxOf (f x) = list.idxOf x := by
  induction list with
  | nil => rfl
  | cons y list ih =>
    have hbeq : (f y == f x) = (y == x) := by
      rw [Bool.eq_iff_iff, beq_iff_eq, beq_iff_eq]
      exact ⟨inj y (by simp), congrArg f⟩
    rw [List.map_cons, List.idxOf_cons, List.idxOf_cons, hbeq, ih fun z hz => inj z (by simp [hz])]

private theorem seeName_map {f : Token → Token} {seen : List Token} {name : Token}
    (inj : ∀ y ∈ seen, f y = f name → y = name) : seeName (seen.map f) (f name) = (seeName seen name).map f := by
  have hmem : f name ∈ seen.map f ↔ name ∈ seen := by
    constructor
    · intro h
      obtain ⟨y, hy, hf⟩ := List.mem_map.1 h
      rw [← inj y hy hf]
      exact hy
    · exact List.mem_map_of_mem
  unfold seeName
  by_cases h : name ∈ seen
  · rw [if_pos h, if_pos (hmem.2 h)]
  · rw [if_neg h, if_neg (mt hmem.1 h), List.map_append, List.map_singleton]

private theorem foldl_seeName_map {f : Token → Token} {seen list : List Token}
    (inj : ∀ x ∈ seen ++ list, ∀ y ∈ seen ++ list, f x = f y → x = y) :
    (list.map f).foldl seeName (seen.map f) = (list.foldl seeName seen).map f := by
  induction list generalizing seen with
  | nil => rfl
  | cons name list ih =>
    have hsee : seeName (seen.map f) (f name) = (seeName seen name).map f :=
      seeName_map fun y hy => inj y (by simp [hy]) name (by simp)
    have hsub : ∀ x ∈ seeName seen name ++ list, x ∈ seen ++ name :: list := by
      intro x hx
      rw [List.mem_append, mem_seeName] at hx
      rw [List.mem_append, List.mem_cons]
      rcases hx with (hx | hx) | hx
      · exact .inl hx
      · exact .inr (.inl hx)
      · exact .inr (.inr hx)
    rw [List.map_cons, List.foldl_cons, List.foldl_cons, hsee]
    exact ih fun x hx y hy => inj x (hsub x hx) y (hsub y hy)

/-- Renaming the entries of a list renames its names. -/
theorem names_map {f : Token → Token} {list : List Token} (inj : ∀ x ∈ list, ∀ y ∈ list, f x = f y → x = y) :
    names (list.map f) = (names list).map f := by
  refine @foldl_seeName_map f [] list ?_
  simpa using inj

/-- A renaming of a stream keeps the kinds of its tokens, keeps its keywords and operators, and tells its identifiers
apart. -/
structure IsRenaming (f : Token → Token) (stream : List Token) : Prop where
  kind : ∀ t ∈ stream, (f t).kind = t.kind
  fixed : ∀ t ∈ stream, t.kind = .keyword ∨ t.kind = .operator → f t = t
  inj : ∀ t ∈ identifiers stream, ∀ u ∈ identifiers stream, f t = f u → t = u

theorem identifiers_map {f : Token → Token} {stream : List Token} (kind : ∀ t ∈ stream, (f t).kind = t.kind) :
    identifiers (stream.map f) = (identifiers stream).map f := by
  unfold identifiers
  rw [List.filter_map]
  congr 1
  refine List.filter_congr fun t ht => ?_
  simp [kind t ht]

private theorem meaningful_map {f : Token → Token} {stream : List Token} (kind : ∀ t ∈ stream, (f t).kind = t.kind) :
    meaningful (stream.map f) = (meaningful stream).map f := by
  unfold meaningful
  rw [List.filter_map]
  congr 1
  refine List.filter_congr fun t ht => ?_
  simp [kind t ht]

theorem mem_meaningful {stream : List Token} {t : Token} :
    t ∈ meaningful stream ↔ t ∈ stream ∧ t.kind ≠ .excludedLiteral ∧ t.kind ≠ .other := by
  simp [meaningful]

theorem mem_identifiers {stream : List Token} {t : Token} : t ∈ identifiers stream ↔ t ∈ stream ∧ t.kind = .identifier := by
  simp [identifiers]

/-- A renaming does not change the normal form. -/
theorem normalForm_map {f : Token → Token} {stream : List Token} (h : IsRenaming f stream) :
    normalForm (stream.map f) = normalForm stream := by
  rw [normalForm_eq_map, normalForm_eq_map, identifiers_map h.kind, names_map h.inj, meaningful_map h.kind, List.map_map]
  refine List.map_congr_left fun t ht => ?_
  obtain ⟨ht, hexcluded, hother⟩ := mem_meaningful.1 ht
  unfold Function.comp standIn
  rw [h.kind t ht]
  by_cases hkind : t.kind = .identifier
  · have hmem : t ∈ identifiers stream := mem_identifiers.2 ⟨ht, hkind⟩
    rw [if_pos hkind, if_pos hkind, idxOf_map fun y hy => h.inj y (mem_names.1 hy) t hmem]
  · rw [if_neg hkind, if_neg hkind]
    refine h.fixed t ht ?_
    cases hk : t.kind <;> simp_all

/-! ### What the normal form keeps -/

theorem kind_standIn (all : List Token) (t : Token) : (standIn all t).kind = t.kind := by
  unfold standIn
  split
  · next hkind => rw [hkind, kind_numberedName]
  · rfl

/-- The normal form of a stream is a renaming of what it keeps of the stream. -/
theorem isRenaming_standIn (stream : List Token) : IsRenaming (standIn (names (identifiers stream))) stream := by
  refine ⟨fun t _ => kind_standIn _ t, ?_, ?_⟩
  · intro t _ hkind
    unfold standIn
    rw [if_neg]
    rcases hkind with hkind | hkind <;> simp [hkind]
  · intro t ht u hu h
    unfold standIn at h
    rw [if_pos (mem_identifiers.1 ht).2, if_pos (mem_identifiers.1 hu).2] at h
    exact eq_of_numberedName_idxOf ht h

private theorem meaningful_meaningful (stream : List Token) : meaningful (meaningful stream) = meaningful stream := by
  simp [meaningful, List.filter_filter]

theorem identifiers_meaningful (stream : List Token) : identifiers (meaningful stream) = identifiers stream := by
  unfold identifiers meaningful
  rw [List.filter_filter]
  refine List.filter_congr fun t _ => ?_
  cases t.kind <;> rfl

/-- Tokens that the normal form drops may as well be dropped before. -/
theorem normalForm_meaningful (stream : List Token) : normalForm (meaningful stream) = normalForm stream := by
  rw [normalForm_eq_map, normalForm_eq_map, meaningful_meaningful, identifiers_meaningful]

/-- Numbering what is numbered changes nothing. -/
theorem normalForm_normalForm (stream : List Token) : normalForm (normalForm stream) = normalForm stream := by
  have h := isRenaming_standIn (meaningful stream)
  rw [identifiers_meaningful] at h
  rw [normalForm_eq_map stream, normalForm_map h, normalForm_meaningful, normalForm_eq_map]

/-- The identifiers of the normal form are the identifiers of the stream, numbered. -/
theorem identifiers_normalForm (stream : List Token) : identifiers (normalForm stream) = identifierSequence stream := by
  rw [identifierSequence_eq_map, normalForm_eq_map, identifiers_map fun t _ => kind_standIn _ t, identifiers_meaningful]
  refine List.map_congr_left fun t ht => ?_
  rw [standIn, if_pos (mem_identifiers.1 ht).2]

/-- A slot that only keywords and operators can have is the same in a stream and its normal form. -/
theorem filterMap_normalForm {slot : Token → Option Nat}
    (h : ∀ t : Token, t.kind ≠ .keyword → t.kind ≠ .operator → slot t = none) (stream : List Token) :
    (normalForm stream).filterMap slot = stream.filterMap slot := by
  rw [normalForm_eq_map, List.filterMap_map, meaningful, List.filterMap_filter]
  refine List.filterMap_congr fun t _ => ?_
  cases hkind : t.kind with
  | keyword | operator => simp [standIn, hkind]
  | identifier =>
    rw [h t (by simp [hkind]) (by simp [hkind])]
    simpa [standIn, hkind] using h (numberedName _) (by simp) (by simp)
  | excludedLiteral | other =>
    rw [h t (by simp [hkind]) (by simp [hkind])]
    simp

end Likeness
