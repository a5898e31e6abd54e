import Likeness.Proofs.CheckedSettings
import Likeness.Proofs.NumberText
import Likeness.Proofs.QuotedStrings

/-!
# Settings as text

Settings that pass their check are written so that reading the text gives them back.

* (values) numbers and arrays of strings are read back from their texts with what follows them (`value?_numberText`,
  `value?_arrayText`); an array of several strings is read line by line (`arrayItems?_lines`).
* (lines) a header and an entry are each read as one statement (`line?_headerText`, `line?_entryText`), and texts that are
  read one after the other (`Writes`) make up a document.
* (settings) `Settings.document` is the table that the text of settings writes (`Settings.document?_text`), and no key of it
  is overlooked (`Settings.ofTable?_document`).  `Settings.ofText_text` puts this together.
-/

namespace Likeness.Toml

/-! ### Values -/

/-- What starts with no bracket or brace is read as a value that holds no others. -/
private theorem value?_cons {c : Char} (hbracket : c ≠ '[') (hbrace : c ≠ '\x7b') (depth : Nat) (text : List Char) :
    value? depth (c :: text) = plainValue? (c :: text) := by
  cases depth with
  | zero => rfl
  | succ depth =>
    unfold value?
    split
    · next heq => exact absurd (List.cons.inj heq).1 hbracket
    · next heq => exact absurd (List.cons.inj heq).1 hbrace
    · rfl

theorem value?_numberText {x : Float} (h : Magnitude.ofFloat x < Magnitude.infinity) (depth : Nat) (rest : List Char) :
    value? depth (numberText x ++ '\n' :: rest) = some (.float x, '\n' :: rest) := by
  have hread := plainValue?_numberText h rest
  obtain ⟨c, text, hcons, hc⟩ := exists_numberText_cons h
  rw [hcons] at hread ⊢
  have hne : c ≠ '[' ∧ c ≠ '\x7b' := by
    constructor <;> rintro rfl <;> revert hc <;> decide
  rw [List.cons_append, value?_cons hne.1 hne.2]
  exact hread

private theorem value?_stringText {c : Char} (hdouble : c ≠ '"') (hsingle : c ≠ '\'') (depth : Nat)
    (string rest : List Char) : value? depth (stringText string ++ c :: rest) = some (.string string, c :: rest) := by
  have hread := quoted?_stringText rest hdouble hsingle string
  obtain ⟨d, text, hcons, hd⟩ := exists_stringText_cons string
  rw [hcons, List.cons_append] at hread ⊢
  have hne : d ≠ '[' ∧ d ≠ '\x7b' ∧ d ≠ 't' ∧ d ≠ 'f' := by
    refine ⟨?_, ?_, ?_, ?_⟩ <;> rintro rfl <;> revert hd <;> decide
  obtain ⟨hbracket, hbrace, htrue, hfalse⟩ := hne
  rw [value?_cons hbracket hbrace, plainValue?, hread]
  · exact fun _ hsame => htrue (List.cons.inj hsame).1
  · exact fun _ hsame => hfalse (List.cons.inj hsame).1

private theorem skipGaps_stringText (string rest : List Char) :
    skipGaps (stringText string ++ rest) = stringText string ++ rest := by
  obtain ⟨d, text, hcons, rfl | rfl⟩ := exists_stringText_cons string <;> rw [hcons] <;> rfl

/-- The start of a string is no closing bracket. -/
private theorem stringText_ne (string rest text : List Char) : stringText string ++ rest ≠ ']' :: text := by
  obtain ⟨d, more, hcons, rfl | rfl⟩ := exists_stringText_cons string <;> rw [hcons] <;> rintro ⟨⟩

/-- Several strings of an array, as they are written. -/
def linesText (strings : List (List Char)) : List Char :=
  strings.flatMap fun s => "    ".toList ++ stringText s ++ [',', '\n']

section

variable {item? : List Char → Option (Value × List Char)} {text start rest : List Char} {v : Value}

private theorem arrayItems?_bracket (hstart : skipGaps text = start) (hne : ∀ rest, start ≠ ']' :: rest)
    (hitem : item? start = some (v, ']' :: rest)) : arrayItems? item? text = some ([v], rest) := by
  rw [arrayItems?, hstart]
  split
  · exact absurd rfl (hne _)
  · rw [hitem]
    rfl

private theorem arrayItems?_comma (hstart : skipGaps text = start) (hne : ∀ rest, start ≠ ']' :: rest)
    (hitem : item? start = some (v, ',' :: rest)) (hlt : rest.length < text.length) :
    arrayItems? item? text = (arrayItems? item? rest).map fun found => (v :: found.1, found.2) := by
  rw [arrayItems?, hstart]
  split
  · exact absurd rfl (hne _)
  · rw [hitem]
    change (if rest.length < text.length then _ else none) = _
    rw [if_pos hlt]
    cases arrayItems? item? rest <;> rfl

end

private theorem arrayItems?_lines (depth : Nat) (strings : List (List Char)) (rest : List Char) :
    arrayItems? (value? depth) ('\n' :: (linesText strings ++ ']' :: rest)) = some (strings.map .string, rest) := by
  induction strings with
  | nil =>
    rw [arrayItems?]
    rfl
  | cons string strings ih =>
    have hline : '\n' :: (linesText (string :: strings) ++ ']' :: rest) =
        '\n' :: ' ' :: ' ' :: ' ' :: ' ' :: (stringText string ++ ',' :: '\n' :: (linesText strings ++ ']' :: rest)) := by
      simp [linesText]
    have hitem := @value?_stringText ',' (by decide) (by decide) depth string ('\n' :: (linesText strings ++ ']' :: rest))
    have hstart : skipGaps ('\n' :: (linesText (string :: strings) ++ ']' :: rest)) = _ :=
      (congrArg skipGaps hline).trans (skipGaps_stringText string _)
    rw [arrayItems?_comma hstart (stringText_ne _ _) hitem, ih]
    · rfl
    · rw [hline]
      simp only [List.length_cons, List.length_append]
      omega

theorem value?_arrayText (strings : List (List Char)) (rest : List Char) :
    value? nestingLimit (arrayText strings ++ '\n' :: rest) = some (.array (strings.map .string), '\n' :: rest) := by
  have hitems : ∀ text items, arrayItems? (value? 78) text = some (items, '\n' :: rest) →
      value? nestingLimit ('[' :: text) = some (.array items, '\n' :: rest) := fun text items h => by
    rw [nestingLimit, value?, h]
    rfl
  match strings with
  | [] =>
    refine hitems (']' :: '\n' :: rest) [] ?_
    rw [arrayItems?]
    rfl
  | [string] =>
    have htext : arrayText [string] ++ '\n' :: rest = '[' :: (stringText string ++ ']' :: '\n' :: rest) := by
      simp [arrayText]
    rw [htext]
    have hitem := @value?_stringText ']' (by decide) (by decide) 78 string ('\n' :: rest)
    exact hitems _ _ (arrayItems?_bracket (skipGaps_stringText _ _) (stringText_ne _ _) hitem)
  | first :: second :: more =>
    have htext : arrayText (first :: second :: more) ++ '\n' :: rest =
        '[' :: '\n' :: (linesText (first :: second :: more) ++ ']' :: '\n' :: rest) := by
      simp [arrayText, linesText]
    rw [htext]
    exact hitems _ _ (arrayItems?_lines 78 _ _)

/-! ### Lines -/

/-- A key that can be written without quotes. -/
structure IsBareKey (key : List Char) : Prop where
  isBare : ∀ c ∈ key, isBare c = true
  ne_nil : key ≠ []

private theorem skipSpace_cons {c : Char} (h : isSpace c = false) (text : List Char) : skipSpace (c :: text) = c :: text :=
  List.dropWhile_cons_of_neg (Bool.eq_false_iff.1 h)

private theorem not_isSpace_of_isBare {c : Char} (h : isBare c = true) : isSpace c = false := by
  unfold isSpace
  rw [Bool.or_eq_false_iff, decide_eq_false_iff_not, decide_eq_false_iff_not]
  constructor <;> rintro rfl <;> cases h

/-- A bare key is read up to the first character that cannot stand in one, if it is no point. -/
private theorem path?_append {key : List Char} (hkey : IsBareKey key) {c d : Char} (hc : isBare c = false)
    {text rest : List Char} (hrest : skipSpace (c :: text) = d :: rest) (hd : d ≠ '.') :
    path? (key ++ c :: text) = some ([key], d :: rest) := by
  obtain ⟨first, more, rfl⟩ := List.exists_cons_of_ne_nil hkey.ne_nil
  have hfirst := hkey.isBare first List.mem_cons_self
  have hquoted : quotedOnLine? (first :: more ++ c :: text) = none := by
    rw [List.cons_append, quotedOnLine?]
    · intro _ hsame
      rw [(List.cons.inj hsame).1] at hfirst
      cases hfirst
    · intro _ hsame
      rw [(List.cons.inj hsame).1] at hfirst
      cases hfirst
  have hread : key? (first :: more ++ c :: text) = some (first :: more, c :: text) := by
    rw [key?, hquoted, List.takeWhile_append_of_pos hkey.isBare, List.dropWhile_append_of_pos hkey.isBare]
    rw [List.takeWhile_cons_of_neg (Bool.eq_false_iff.1 hc), List.dropWhile_cons_of_neg (Bool.eq_false_iff.1 hc),
      List.append_nil]
  have hspace : skipSpace (first :: more ++ c :: text) = first :: more ++ c :: text :=
    skipSpace_cons (not_isSpace_of_isBare hfirst) _
  rw [path?, nestingLimit, keyPath?, hspace, hread]
  simp only [Option.bind_eq_bind, Option.bind_some, hrest]
  split
  · next heq => exact absurd (List.cons.inj heq).1 hd
  · rfl

private theorem line?_headerText {key : List Char} (hkey : IsBareKey key) (rest : List Char) :
    line? (headerText key ++ rest) = some (some (.header [key]), rest) := by
  have hpath := @path?_append key hkey ']' ']' rfl _ ('\n' :: rest) rfl (by decide)
  have htext : headerText key ++ rest = '[' :: (key ++ ']' :: '\n' :: rest) := by simp [headerText]
  have hspace : skipSpace ('[' :: (key ++ ']' :: '\n' :: rest)) = '[' :: (key ++ ']' :: '\n' :: rest) := rfl
  have hne : ∀ text, key ++ ']' :: '\n' :: rest ≠ '[' :: text := by
    obtain ⟨first, more, rfl⟩ := List.exists_cons_of_ne_nil hkey.ne_nil
    intro text hsame
    have hfirst := hkey.isBare first List.mem_cons_self
    rw [(List.cons.inj hsame).1] at hfirst
    cases hfirst
  rw [htext, line?, hspace]
  split
  · next heq => cases heq
  · next text heq => exact absurd (List.cons.inj heq).2 (hne text)
  · next heq =>
    obtain rfl := (List.cons.inj heq).2
    rw [hpath]
    rfl
  · next hbracket heq => exact absurd (List.cons.inj heq).1.symm hbracket

private theorem line?_blank (rest : List Char) : line? ('\n' :: rest) = some (none, rest) := rfl

private theorem line?_entryText {key value : List Char} (hkey : IsBareKey key) {v : Value} {rest : List Char}
    (hread : value? nestingLimit (value ++ '\n' :: rest) = some (v, '\n' :: rest))
    (hspace : skipSpace (value ++ '\n' :: rest) = value ++ '\n' :: rest) :
    line? (entryText key value ++ rest) = some (some (.assign [key] v), rest) := by
  have hequals : skipSpace (' ' :: '=' :: ' ' :: (value ++ '\n' :: rest)) = '=' :: ' ' :: (value ++ '\n' :: rest) := rfl
  have hpath := path?_append hkey rfl hequals (by decide)
  have htext : entryText key value ++ rest = key ++ ' ' :: '=' :: ' ' :: (value ++ '\n' :: rest) := by simp [entryText]
  have hassignment : assignment? (value? nestingLimit) (key ++ ' ' :: '=' :: ' ' :: (value ++ '\n' :: rest)) =
      some (([key], v), '\n' :: rest) := by
    have hskip : skipSpace (' ' :: (value ++ '\n' :: rest)) = value ++ '\n' :: rest := hspace
    rw [assignment?, hpath]
    simp only [Option.bind_eq_bind, Option.bind_some, after?, if_true, hskip, hread]
    rfl
  obtain ⟨first, more, rfl⟩ := List.exists_cons_of_ne_nil hkey.ne_nil
  have hfirst := hkey.isBare first List.mem_cons_self
  rw [htext, List.cons_append, line?, skipSpace_cons (not_isSpace_of_isBare hfirst)]
  rw [List.cons_append] at hassignment
  have hne : first ≠ '[' ∧ first ≠ '#' ∧ first ≠ '\n' ∧ first ≠ '\r' := by
    refine ⟨?_, ?_, ?_, ?_⟩ <;> rintro rfl <;> cases hfirst
  obtain ⟨hbracket, hcomment, hlineEnd, hreturn⟩ := hne
  split
  · next heq => cases heq
  · next heq => exact absurd (List.cons.inj heq).1 hbracket
  · next heq => exact absurd (List.cons.inj heq).1 hbracket
  · next heq =>
    obtain ⟨rfl, rfl⟩ := List.cons.inj heq
    rw [if_neg (by simp [hcomment, hlineEnd, hreturn]), hassignment]
    rfl

/-! ### Documents -/

/-- A text that writes statements, whatever comes after it. -/
def Writes (text : List Char) (statements : List Statement) : Prop :=
  ∀ rest, statements? (text ++ rest) = (statements? rest).map (statements ++ ·)

theorem Writes.append {text text' : List Char} {statements statements' : List Statement} (h : Writes text statements)
    (h' : Writes text' statements') : Writes (text ++ text') (statements ++ statements') := by
  intro rest
  rw [List.append_assoc, h, h', Option.map_map]
  simp only [Function.comp_def, List.append_assoc]

private theorem Writes.flatMap {α : Type} {xs : List α} {f : α → List Char} {g : α → Statement}
    (h : ∀ x ∈ xs, Writes (f x) [g x]) : Writes (xs.flatMap f) (xs.map g) := by
  induction xs with
  | nil =>
    intro rest
    cases hrest : statements? rest <;> simp [hrest]
  | cons x xs ih =>
    rw [List.flatMap_cons]
    exact (h x List.mem_cons_self).append (ih fun y hy => h y (List.mem_cons_of_mem _ hy))

/-- The statements of a text are that of its first line and those of the rest. -/
theorem statements?_of_line? {text rest : List Char} {statement : Option Statement}
    (h : line? text = some (statement, rest)) (hlt : rest.length < text.length) :
    statements? text = (statements? rest).map (statement.toList ++ ·) := by
  have hne : text ≠ [] := List.ne_nil_of_length_pos (by omega)
  rw [statements?, if_neg hne, h]
  dsimp only
  rw [if_pos hlt]
  cases statements? rest <;> rfl

theorem writes_of_line? {text : List Char} {statement : Option Statement}
    (h : ∀ rest, line? (text ++ rest) = some (statement, rest)) (hne : text ≠ []) : Writes text statement.toList := by
  intro rest
  refine statements?_of_line? (h rest) ?_
  have := List.length_pos_of_ne_nil hne
  rw [List.length_append]
  omega

/-- A text that writes statements is read as the document that they make. -/
theorem Writes.document?_eq {text : List Char} {statements : List Statement} (h : Writes text statements)
    (hmark : text.head? ≠ some byteOrderMark) :
    document? text = (statements.foldlM Draft.add ⟨[], []⟩).map fun draft => entryValues draft.entries := by
  have hstatements : statements? text = some statements := by
    have hread := h []
    rw [List.append_nil] at hread
    rw [hread, statements?]
    simp
  rw [document?, if_neg hmark]
  simp only [Option.bind_eq_bind, hstatements, Option.bind_some]
  cases statements.foldlM Draft.add ⟨[], []⟩ <;> rfl

theorem writes_headerText {key : List Char} (hkey : IsBareKey key) : Writes (headerText key) [.header [key]] :=
  writes_of_line? (line?_headerText hkey) (by simp [headerText])

theorem writes_blank : Writes ['\n'] [] :=
  @writes_of_line? ['\n'] none line?_blank (List.cons_ne_nil _ _)

theorem writes_numberEntry {key : List Char} (hkey : IsBareKey key) {x : Float}
    (h : Magnitude.ofFloat x < Magnitude.infinity) : Writes (entryText key (numberText x)) [.assign [key] (.float x)] := by
  refine writes_of_line? (fun rest => line?_entryText hkey (value?_numberText h _ rest) ?_) (by simp [entryText])
  obtain ⟨c, text, hcons, hc⟩ := exists_numberText_cons h
  rw [hcons]
  refine skipSpace_cons ?_ _
  unfold isSpace
  rw [Bool.or_eq_false_iff, decide_eq_false_iff_not, decide_eq_false_iff_not]
  constructor <;> rintro rfl <;> revert hc <;> decide

theorem writes_arrayEntry {key : List Char} (hkey : IsBareKey key) (strings : List (List Char)) :
    Writes (entryText key (arrayText strings)) [.assign [key] (.array (strings.map .string))] := by
  refine writes_of_line? (fun rest => line?_entryText hkey (value?_arrayText strings rest) ?_) (by simp [entryText])
  match strings with
  | [] => rfl
  | [_] => rfl
  | _ :: _ :: _ => rfl

end Likeness.Toml

namespace Likeness.Settings

open Toml

/-! ### Settings -/

/-- The statements that settings are written as. -/
def statements (s : Settings) : List Statement :=
  [.header ["weights".toList]] ++ (Aspect.all.map fun a => .assign [a.name.toList] (.float (s.weights.get a))) ++
    [.header ["scan".toList], .assign ["extensions".toList] (.array (s.extensions.map .string)),
      .assign ["report_threshold".toList] (.float s.threshold)]

/-- The table that settings are written as. -/
def document (s : Settings) : List (Key × Value) :=
  [("weights".toList, .table (Aspect.all.map fun a => (a.name.toList, .float (s.weights.get a)))),
    ("scan".toList, .table [("extensions".toList, .array (s.extensions.map .string)),
      ("report_threshold".toList, .float s.threshold)])]

/-- Settings whose numbers are finite. -/
structure IsFinite (s : Settings) : Prop where
  weights : ∀ aspect, Magnitude.ofFloat (s.weights.get aspect) < Magnitude.infinity
  threshold : Magnitude.ofFloat s.threshold < Magnitude.infinity

theorem isFinite_of_check {s : Settings} (h : s.check = .ok ()) : s.IsFinite := by
  obtain ⟨hweights, -, hthreshold⟩ := check_eq_ok_iff.1 h
  refine ⟨fun aspect => ?_, ?_⟩
  · obtain ⟨a, ha, _⟩ := exists_valueOf?_of_not_unusable (hweights aspect)
    exact magnitude_lt_infinity ha
  · obtain ⟨a, ha, _⟩ := hthreshold.exists_valueOf?
    exact magnitude_lt_infinity ha

private theorem isBareKey_name (a : Aspect) : IsBareKey a.name.toList := by
  cases a <;> exact ⟨List.all_eq_true.1 rfl, by simp [Aspect.name]⟩

theorem writes_text {s : Settings} (h : s.IsFinite) : Writes s.text s.statements := by
  have hweights := @writes_headerText "weights".toList ⟨List.all_eq_true.1 rfl, by simp⟩
  have hentries : Writes _ _ :=
    Writes.flatMap fun a (_ : a ∈ Aspect.all) => writes_numberEntry (isBareKey_name a) (h.weights a)
  have hscan := @writes_headerText "scan".toList ⟨List.all_eq_true.1 rfl, by simp⟩
  have hextensions := @writes_arrayEntry "extensions".toList ⟨List.all_eq_true.1 rfl, by simp⟩ s.extensions
  have hthreshold := @writes_numberEntry "report_threshold".toList ⟨List.all_eq_true.1 rfl, by simp⟩ _ h.threshold
  have hall := (hweights.append hentries).append (writes_blank.append (hscan.append (hextensions.append hthreshold)))
  simpa [text, statements] using hall

theorem document?_text {s : Settings} (h : s.IsFinite) : document? s.text = some s.document := by
  have hmark : s.text.head? ≠ some byteOrderMark := by
    change some '[' ≠ some byteOrderMark
    decide
  rw [(writes_text h).document?_eq hmark]
  rfl

theorem stringsOf?_strings (strings : List (List Char)) : stringsOf? (.array (strings.map .string)) = some strings := by
  change (strings.map Value.string).mapM stringOf? = some strings
  induction strings with
  | nil => rfl
  | cons string strings ih =>
    rw [List.map_cons, List.mapM_cons, ih]
    rfl

theorem ofTable?_document (s : Settings) : ofTable? s.document = some { s with source := none } := by
  change (stringsOf? (.array (s.extensions.map .string))).bind _ = _
  rw [stringsOf?_strings]
  rfl

/-- Settings that pass their check are read back from their text, to the last bit and whatever file the text is said to come
from; only the file that the settings came from is forgotten. -/
theorem ofText_text {s : Settings} (h : s.check = .ok ()) (origin : Path) :
    ofText s.text origin = .ok { s with source := none } := by
  have hparts := check_eq_ok_iff.1 h
  have hcheck : ({ s with source := none } : Settings).check = .ok () := check_eq_ok_iff.2 hparts
  rw [ofText, document?_text (isFinite_of_check h), Option.bind_some, ofTable?_document]
  dsimp only
  rw [hcheck]

/-- Settings with negative zero, the smallest double and one near the largest as weights, and with an empty extension, one of
quotes of both kinds and one of a backslash, a line end and a control character. -/
theorem ofText_text_of_unusual_settings :
    let weights : Weights := ⟨-0.0, 5e-324, 1.7e308, 0.1, 1.0⟩
    let extensions := [[], ['"', '\'', '\'', '\''], ['\\', '\n', '\x01']]
    let s : Settings := ⟨weights, extensions, 0.25, some (.ofString "kept/codesim.toml")⟩
    s.check = .ok () ∧ ofText s.text (.ofString "elsewhere.toml") = .ok ⟨weights, extensions, 0.25, none⟩ := by
  intro weights extensions s
  have hweights : ∀ aspect, ¬ Unusable (s.weights.get aspect) := by
    simp only [← isUsable_eq_false_iff]
    intro aspect
    cases aspect <;> decide +kernel
  have hthreshold : InUnit s.threshold := by
    rw [← isThreshold_iff]
    decide +kernel
  have hcheck : s.check = .ok () := check_eq_ok_iff.2 ⟨hweights, List.cons_ne_nil _ _, hthreshold⟩
  exact ⟨hcheck, ofText_text hcheck (.ofString "elsewhere.toml")⟩

end Likeness.Settings
