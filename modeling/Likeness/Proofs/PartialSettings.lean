import Likeness.Proofs.SettingsText
import Mathlib.Logic.Relation

/-!
# Settings that are set in part

A settings file overrides the defaults key by key.

* (fields) a document gives a value for some of the keys (`given?`), and is read as if it gave the default for all others
  (`ofTable?_eq_some_iff`).
* (rewording) empty sections, defaults that are written out and keys that are not known do not change what is read
  (`Rewords.saySame`), however often a document is reworded (`ofTable?_eq_of_eqvGen`).
* (texts) `ofText_of_partial_document` puts the parts together: the settings that the given values and the defaults make up
  are read if they pass their check, and every failure names the file.
-/

namespace Likeness.Settings

open Toml

/-! ### Fields -/

/-- What a settings file can set. -/
inductive Field where
  | weight (a : Aspect)
  | extensions
  | threshold

namespace Field

/-- The name of the section that a field stands in. -/
def table : Field → String
  | weight _ => "weights"
  | extensions | threshold => "scan"

/-- The place of a field in a section that is an array. -/
def place : Field → Nat
  | weight a => Aspect.all.idxOf a
  | extensions => 0
  | threshold => 1

def name : Field → String
  | weight a => a.name
  | extensions => "extensions"
  | threshold => "report_threshold"

/-- What settings hold in a field, as it is written. -/
def value (s : Settings) : Field → Value
  | weight a => .float (s.weights.get a)
  | extensions => .array (s.extensions.map .string)
  | threshold => .float s.threshold

def default (f : Field) : Value :=
  f.value Settings.default

theorem eq_of_name_eq {f g : Field} (htable : f.table.toList = g.table.toList) (hname : f.name.toList = g.name.toList) :
    f = g := by
  rcases f with (_ | _ | _ | _ | _) | _ | _ <;> rcases g with (_ | _ | _ | _ | _) | _ | _ <;>
    first
    | rfl
    | exact absurd htable (by decide)
    | exact absurd hname (by decide)

end Field

/-- What may stand for a section. -/
inductive IsSection : Option Value → Prop
  | missing : IsSection none
  | table (entries : List (Key × Value)) : IsSection (some (.table entries))
  | array (items : List Value) : IsSection (some (.array items))
  | moment : IsSection (some .moment)

/-- A document of which all sections can be read. -/
def HasSections (document : List (Key × Value)) : Prop :=
  ∀ f : Field, IsSection (document.lookup f.table.toList)

/-- The value that a document gives for a field. -/
def given? (document : List (Key × Value)) (f : Field) : Option Value :=
  match document.lookup f.table.toList with
  | some (.table entries) => entries.lookup f.name.toList
  | some (.array items) => items[f.place]?
  | _ => none

/-- The value that a document gives for a field, or the default. -/
def effective (document : List (Key × Value)) (f : Field) : Value :=
  (given? document f).getD f.default

section

variable {document : List (Key × Value)} {f : Field} {s : Section}

theorem effective_of_none (h : given? document f = none) : effective document f = f.default := by
  rw [effective, h, Option.getD_none]

theorem exists_find?_eq_some_iff {name : String} :
    (∃ s, Section.find? document name = some s) ↔ IsSection (document.lookup name.toList) := by
  unfold Section.find?
  constructor
  · rintro ⟨s, h⟩
    split at h
    · next hmissing =>
      rw [hmissing]
      exact .missing
    · next v hv =>
      rw [hv]
      cases v with
      | table entries => exact .table entries
      | array items => exact .array items
      | moment => exact .moment
      | string _ | integer _ | float _ | boolean _ => cases h
  · intro h
    generalize document.lookup name.toList = found at h
    cases h <;> exact ⟨_, rfl⟩

theorem get?_of_find? (h : Section.find? document f.table = some s) : s.get? f.place f.name.toList = given? document f := by
  unfold Section.find? at h
  unfold given?
  generalize document.lookup f.table.toList = found at h ⊢
  rcases found with _ | v
  · cases h
    rfl
  · cases v <;> cases h <;> rfl

theorem setting_eq {α : Type} {read? : Value → Option α} {x : α} (hdefault : read? f.default = some x)
    (h : Section.find? document f.table = some s) :
    setting read? x s f.place f.name = read? (effective document f) := by
  rw [setting, get?_of_find? h, effective]
  cases given? document f with
  | none => exact hdefault.symm
  | some v => rfl

end

theorem numberOf?_default_weight (a : Aspect) : numberOf? (Field.weight a).default = some (Weights.default.get a) := rfl

theorem stringsOf?_default : stringsOf? Field.extensions.default = some default.extensions :=
  stringsOf?_strings _

theorem numberOf?_default_threshold : numberOf? Field.threshold.default = some default.threshold := rfl

/-- Settings that the values of a document, and the defaults of what it does not give, stand for. -/
structure AreReadFrom (s : Settings) (document : List (Key × Value)) : Prop where
  sections : HasSections document
  weights : ∀ a, numberOf? (effective document (.weight a)) = some (s.weights.get a)
  extensions : stringsOf? (effective document .extensions) = some s.extensions
  threshold : numberOf? (effective document .threshold) = some s.threshold
  source : s.source = none

theorem weightsOf?_eq_some_iff {s : Section} {w : Weights} :
    weightsOf? s = some w ↔
      ∀ a, setting numberOf? (Weights.default.get a) s (Aspect.all.idxOf a) a.name = some (w.get a) := by
  simp only [weightsOf?, Option.bind_eq_bind, Option.bind_eq_some_iff, Option.pure_def, Option.some.injEq]
  constructor
  · rintro ⟨keyword, hkeyword, identifier, hidentifier, operator, hoperator, sequence, hsequence, length, hlength, rfl⟩ a
    cases a with
    | keyword => exact hkeyword
    | identifier => exact hidentifier
    | operator => exact hoperator
    | sequence => exact hsequence
    | length => exact hlength
  · intro h
    exact ⟨_, h .keyword, _, h .identifier, _, h .operator, _, h .sequence, _, h .length, rfl⟩

/-- A document is read as if all values that it does not give were the defaults. -/
theorem ofTable?_eq_some_iff {document : List (Key × Value)} {s : Settings} :
    ofTable? document = some s ↔ s.AreReadFrom document := by
  simp only [ofTable?, Option.bind_eq_bind, Option.bind_eq_some_iff, Option.pure_def, Option.some.injEq,
    weightsOf?_eq_some_iff]
  constructor
  · rintro ⟨weights, hfind_w, w, hweights, scan, hfind_s, extensions, hextensions, threshold, hthreshold, rfl⟩
    refine ⟨fun f => ?_, fun a => ?_, ?_, ?_, rfl⟩
    · cases f with
      | weight => exact exists_find?_eq_some_iff.1 ⟨_, hfind_w⟩
      | extensions => exact exists_find?_eq_some_iff.1 ⟨_, hfind_s⟩
      | threshold => exact exists_find?_eq_some_iff.1 ⟨_, hfind_s⟩
    · exact (setting_eq (numberOf?_default_weight a) hfind_w).symm.trans (hweights a)
    · exact (setting_eq stringsOf?_default hfind_s).symm.trans hextensions
    · exact (setting_eq numberOf?_default_threshold hfind_s).symm.trans hthreshold
  · rintro ⟨hsections, hweights, hextensions, hthreshold, hsource⟩
    obtain ⟨weights, hfind_w⟩ := exists_find?_eq_some_iff.2 (hsections (.weight .keyword))
    obtain ⟨scan, hfind_s⟩ := exists_find?_eq_some_iff.2 (hsections .extensions)
    refine ⟨weights, hfind_w, s.weights, fun a => ?_, scan, hfind_s, s.extensions, ?_, s.threshold, ?_, ?_⟩
    · exact (setting_eq (numberOf?_default_weight a) hfind_w).trans (hweights a)
    · exact (setting_eq stringsOf?_default hfind_s).trans hextensions
    · exact (setting_eq numberOf?_default_threshold hfind_s).trans hthreshold
    · rw [← hsource]

/-! ### Rewording -/

/-- A change of a document that does not change what it says: an empty section is added, a default is written out, or a key
that is not known gets a value. -/
inductive Rewords (document : List (Key × Value)) : List (Key × Value) → Prop
  | emptySection (f : Field) (missing : document.lookup f.table.toList = none) :
    Rewords document (setKey document f.table.toList (.table []))
  | default (f : Field) {entries : List (Key × Value)} (table : document.lookup f.table.toList = some (.table entries))
      (missing : entries.lookup f.name.toList = none) :
    Rewords document (setKey document f.table.toList (.table (setKey entries f.name.toList f.default)))
  | unknownKey {name key : Key} {entries : List (Key × Value)} (table : document.lookup name = some (.table entries))
      (unknown : ∀ f : Field, f.table.toList = name → f.name.toList ≠ key) (v : Value) :
    Rewords document (setKey document name (.table (setKey entries key v)))
  | unknownSection {name : Key} (unknown : ∀ f : Field, f.table.toList ≠ name) (v : Value) :
    Rewords document (setKey document name v)

section

variable {document : List (Key × Value)} {f : Field}

theorem given?_of_missing (h : document.lookup f.table.toList = none) : given? document f = none := by
  rw [given?, h]

theorem given?_of_table {entries : List (Key × Value)} (h : document.lookup f.table.toList = some (.table entries)) :
    given? document f = entries.lookup f.name.toList := by
  rw [given?, h]

theorem given?_setKey_of_ne {name : Key} (h : f.table.toList ≠ name) (v : Value) :
    given? (setKey document name v) f = given? document f := by
  rw [given?, lookup_setKey_of_ne _ _ h, given?]

end

/-- Documents with the same values, and sections that can be read or cannot be read in both. -/
structure SaySame (document document' : List (Key × Value)) : Prop where
  sections : HasSections document ↔ HasSections document'
  effective : effective document = effective document'

theorem SaySame.symm {document document' : List (Key × Value)} (h : SaySame document document') :
    SaySame document' document :=
  ⟨h.sections.symm, h.effective.symm⟩

theorem SaySame.areReadFrom {document document' : List (Key × Value)} (h : SaySame document document') {s : Settings}
    (hs : s.AreReadFrom document) : s.AreReadFrom document' := by
  obtain ⟨hsections, hweights, hextensions, hthreshold, hsource⟩ := hs
  rw [h.effective] at hweights hextensions hthreshold
  exact ⟨h.sections.1 hsections, hweights, hextensions, hthreshold, hsource⟩

theorem SaySame.ofTable?_eq {document document' : List (Key × Value)} (h : SaySame document document') :
    ofTable? document = ofTable? document' := by
  refine Option.ext fun s => ?_
  rw [ofTable?_eq_some_iff, ofTable?_eq_some_iff]
  exact ⟨h.areReadFrom, h.symm.areReadFrom⟩

/-- A table can take the place of a section that can be read, if it has the same values and defaults. -/
theorem saySame_setKey {document entries : List (Key × Value)} {name : Key} (hsection : IsSection (document.lookup name))
    (h : ∀ f : Field, f.table.toList = name → effective document f = (entries.lookup f.name.toList).getD f.default) :
    SaySame document (setKey document name (.table entries)) := by
  refine ⟨forall_congr' fun f => ?_, funext fun f => ?_⟩
  · by_cases hname : f.table.toList = name
    · rw [hname, lookup_setKey_self]
      exact iff_of_true hsection (.table entries)
    · rw [lookup_setKey_of_ne _ _ hname]
  · by_cases hname : f.table.toList = name
    · subst hname
      rw [h f rfl, effective, given?_of_table (lookup_setKey_self _ _ _)]
    · rw [effective, effective, given?_setKey_of_ne hname]

theorem Rewords.saySame {document document' : List (Key × Value)} (h : Rewords document document') :
    SaySame document document' := by
  cases h with
  | emptySection f hmissing =>
    refine saySame_setKey (hmissing ▸ .missing) fun g hname => ?_
    exact effective_of_none (given?_of_missing (hname ▸ hmissing))
  | @default f entries htable hmissing =>
    refine saySame_setKey (htable ▸ .table _) fun g hname => ?_
    rw [effective, given?_of_table (hname ▸ htable)]
    -- a section has no two fields of one name, so that only the field itself is given
    by_cases hsame : g.name.toList = f.name.toList
    · obtain rfl := Field.eq_of_name_eq hname hsame
      rw [hmissing, lookup_setKey_self, Option.getD_none, Option.getD_some]
    · rw [lookup_setKey_of_ne _ _ hsame]
  | @unknownKey name key entries htable hunknown v =>
    refine saySame_setKey (htable ▸ .table _) fun g hname => ?_
    rw [effective, given?_of_table (hname ▸ htable), lookup_setKey_of_ne _ _ (hunknown g hname)]
  | @unknownSection name hunknown v =>
    refine ⟨forall_congr' fun g => ?_, funext fun g => ?_⟩
    · rw [lookup_setKey_of_ne _ _ (hunknown g)]
    · rw [effective, effective, given?_setKey_of_ne (hunknown g)]

/-- However often a document is reworded, the same is read. -/
theorem ofTable?_eq_of_eqvGen {document document' : List (Key × Value)} (h : Relation.EqvGen Rewords document document') :
    ofTable? document = ofTable? document' := by
  induction h with
  | rel _ _ hstep => exact hstep.saySame.ofTable?_eq
  | refl _ => rfl
  | symm _ _ _ ih => exact ih.symm
  | trans _ _ _ _ _ ih ih' => exact ih.trans ih'

/-! ### Texts -/

/-- Values for some of the fields. -/
structure Overrides where
  weights : ByAspect (Option Float)
  extensions : Option (List Name)
  threshold : Option Float

namespace Overrides

/-- The settings that the values and the defaults make up. -/
def merged (o : Overrides) : Settings where
  weights := .ofFn fun a => (o.weights.get a).getD (Weights.default.get a)
  extensions := o.extensions.getD Settings.default.extensions
  threshold := o.threshold.getD Settings.default.threshold
  source := none

end Overrides

/-- A value that is given has the right type, and stands for what it should. -/
inductive Reads {α : Type} (read? : Value → Option α) : Option Value → Option α → Prop
  | absent : Reads read? none none
  | given {v : Value} {x : α} (value : read? v = some x) : Reads read? (some v) (some x)

/-- A document gives exactly these values, among others that are not known. -/
structure Overrides.AreGivenBy (o : Overrides) (document : List (Key × Value)) : Prop where
  sections : HasSections document
  weights : ∀ a, Reads numberOf? (given? document (.weight a)) (o.weights.get a)
  extensions : Reads stringsOf? (given? document .extensions) o.extensions
  threshold : Reads numberOf? (given? document .threshold) o.threshold

theorem Reads.eq_none {α : Type} {read? : Value → Option α} {x : Option α} (h : Reads read? none x) : none = x := by
  cases h
  rfl

theorem Reads.read?_eq {α : Type} {read? : Value → Option α} {v : Option Value} {x : Option α} (h : Reads read? v x)
    {default : Value} {y : α} (hdefault : read? default = some y) : read? (v.getD default) = some (x.getD y) := by
  cases h with
  | absent => exact hdefault
  | given hvalue => exact hvalue

theorem exists_reads_of_read? {α : Type} {read? : Value → Option α} {v : Option Value} {default : Value} {y : α}
    (h : read? (v.getD default) = some y) : ∃ x, Reads read? v x := by
  cases v with
  | none => exact ⟨none, .absent⟩
  | some v => exact ⟨some y, .given h⟩

theorem Overrides.AreGivenBy.ofTable?_eq {o : Overrides} {document : List (Key × Value)} (h : o.AreGivenBy document) :
    ofTable? document = some o.merged := by
  refine ofTable?_eq_some_iff.2 ⟨h.sections, fun a => ?_, ?_, ?_, rfl⟩
  · rw [Overrides.merged, ByAspect.get_ofFn]
    exact (h.weights a).read?_eq (numberOf?_default_weight a)
  · exact h.extensions.read?_eq stringsOf?_default
  · exact h.threshold.read?_eq numberOf?_default_threshold

/-- What can be read has values of the right types. -/
theorem exists_areGivenBy {document : List (Key × Value)} {s : Settings} (h : ofTable? document = some s) :
    ∃ o : Overrides, o.AreGivenBy document := by
  obtain ⟨hsections, hweights, hextensions, hthreshold, _⟩ := ofTable?_eq_some_iff.1 h
  choose weights hw using fun a => exists_reads_of_read? (hweights a)
  obtain ⟨extensions, he⟩ := exists_reads_of_read? hextensions
  obtain ⟨threshold, ht⟩ := exists_reads_of_read? hthreshold
  refine ⟨⟨.ofFn weights, extensions, threshold⟩, hsections, fun a => ?_, he, ht⟩
  rw [ByAspect.get_ofFn]
  exact hw a

/-- A document gives a value for every field: the value that another document gives, or the default. -/
def WritesOut (document document' : List (Key × Value)) : Prop :=
  ∀ f, given? document' f = some (effective document f)

theorem given?_document (s : Settings) (f : Field) : given? s.document f = some (f.value s) := by
  rcases f with (_ | _ | _ | _ | _) | _ | _ <;> rfl

theorem WritesOut.saySame {document document' : List (Key × Value)} (h : WritesOut document document')
    (hsections : HasSections document) : SaySame document document' := by
  refine ⟨iff_of_true hsections fun f => ?_, funext fun f => ?_⟩
  · -- what gives a value is a table or an array
    have hgiven := h f
    unfold given? at hgiven
    split at hgiven
    · next entries htable => exact htable ▸ .table entries
    · next items harray => exact harray ▸ .array items
    · cases hgiven
  · rw [effective, effective, h f, Option.getD_some, effective]

/-- The text of the settings writes all out, if the values of the document are written as settings are. -/
theorem Overrides.AreGivenBy.writesOut {o : Overrides} {document : List (Key × Value)} (h : o.AreGivenBy document)
    (hvalue : ∀ f v, given? document f = some v → v = f.value o.merged) : WritesOut document o.merged.document := by
  intro f
  rw [given?_document]
  cases hgiven : given? document f with
  | some v => rw [effective, hgiven, Option.getD_some, hvalue f v hgiven]
  | none =>
    rw [effective_of_none hgiven]
    cases f with
    | weight a =>
      have hweight := h.weights a
      rw [hgiven] at hweight
      rw [Field.value, Overrides.merged, ByAspect.get_ofFn, ← hweight.eq_none]
      rfl
    | extensions =>
      have hextensions := h.extensions
      rw [hgiven] at hextensions
      rw [Field.value, Overrides.merged, ← hextensions.eq_none]
      rfl
    | threshold =>
      have hthreshold := h.threshold
      rw [hgiven] at hthreshold
      rw [Field.value, Overrides.merged, ← hthreshold.eq_none]
      rfl

/-- A failure is about the settings in a file, and its text starts with the name of the file. -/
structure Blames (failure : Failure) (origin : Path) : Prop where
  kind : failure = .settingsText origin ∨ ∃ cause, failure = .settings origin cause
  message : ∃ rest, failure.message = "invalid config in " ++ origin.display ++ ": " ++ rest

theorem blames_settingsText (origin : Path) : Blames (.settingsText origin) origin := by
  have hmessage : (Failure.settingsText origin).message =
      "invalid config in " ++ origin.display ++ ": the text cannot be read as settings" := rfl
  have hsplit : ": the text cannot be read as settings" = ": " ++ "the text cannot be read as settings" := rfl
  refine ⟨.inl rfl, "the text cannot be read as settings", ?_⟩
  rw [hmessage, hsplit]
  exact String.append_assoc.symm

theorem blames_settings (origin : Path) (cause : Failure) : Blames (.settings origin cause) origin :=
  ⟨.inr ⟨cause, rfl⟩, _, rfl⟩

section

variable {text : List Char} {document : List (Key × Value)}

theorem ofText_of_ofTable?_eq_none (hread : Toml.document? text = some document) (h : ofTable? document = none)
    (origin : Path) : ofText text origin = .error (.settingsText origin) := by
  rw [ofText, hread, Option.bind_some, h]

/-- Settings that have been read are accepted if they pass their check. -/
theorem ofText_of_ofTable?_eq_some {s : Settings} (hread : Toml.document? text = some document)
    (h : ofTable? document = some s) (origin : Path) :
    ofText text origin = (s.check.mapError (.settings origin)).map fun _ => s := by
  rw [ofText, hread, Option.bind_some, h]
  dsimp only
  cases s.check <;> rfl

theorem ofText_eq_of_ofTable?_eq {text' : List Char} {document' : List (Key × Value)}
    (hread : Toml.document? text = some document) (hread' : Toml.document? text' = some document')
    (h : ofTable? document = ofTable? document') (origin : Path) : ofText text' origin = ofText text origin := by
  rw [ofText, ofText, hread, hread', Option.bind_some, Option.bind_some, h]

theorem blames_of_ofText {origin : Path} {failure : Failure} (h : ofText text origin = .error failure) :
    Blames failure origin := by
  unfold ofText at h
  split at h
  · obtain rfl := Except.error.inj h
    exact blames_settingsText origin
  · split at h
    · cases h
    · obtain rfl := Except.error.inj h
      exact blames_settings origin _

end

/-- A text is read as the settings that the values of its document and the defaults make up, if these pass their check.  It
does not matter whether defaults are written out, whether sections are empty or missing, and what keys hold that are not
known.  All failures are about the file that the text is said to come from. -/
theorem ofText_of_partial_document (text : List Char) (origin : Path) :
    (∀ failure, ofText text origin = .error failure → Blames failure origin) ∧
    (Toml.document? text = none → ofText text origin = .error (.settingsText origin)) ∧
    ∀ document, Toml.document? text = some document →
      (∀ o : Overrides, o.AreGivenBy document →
        (∀ s, ofText text origin = .ok s ↔ o.merged.check = .ok () ∧ s = o.merged) ∧
        (∀ failure, ofText text origin = .error failure ↔
          ∃ cause, o.merged.check = .error cause ∧ failure = .settings origin cause) ∧
        ∀ text' document', Toml.document? text' = some document' → WritesOut document document' →
          ofText text' origin = ofText text origin) ∧
      ((¬ ∃ o : Overrides, o.AreGivenBy document) → ofText text origin = .error (.settingsText origin)) ∧
      ∀ text' document', Toml.document? text' = some document' → Relation.EqvGen Rewords document document' →
        ofText text' origin = ofText text origin := by
  refine ⟨fun failure => blames_of_ofText, fun hnone => ?_, fun document hread => ⟨fun o ho => ?_, fun hnone => ?_, ?_⟩⟩
  · rw [ofText, hnone]
    rfl
  · have hmerged := ofText_of_ofTable?_eq_some hread ho.ofTable?_eq origin
    refine ⟨fun s => ?_, fun failure => ?_, fun text' document' hread' hout => ?_⟩
    · rw [hmerged]
      cases o.merged.check with
      | ok _ => simp [Except.mapError, Except.map, eq_comm]
      | error cause => simp [Except.mapError, Except.map]
    · rw [hmerged]
      cases o.merged.check with
      | ok _ => simp [Except.mapError, Except.map]
      | error cause => simp [Except.mapError, Except.map, eq_comm]
    · exact ofText_eq_of_ofTable?_eq hread hread' (hout.saySame ho.sections).ofTable?_eq origin
  · refine ofText_of_ofTable?_eq_none hread ?_ origin
    exact Option.eq_none_iff_forall_ne_some.2 fun s hs => hnone (exists_areGivenBy hs)
  · intro text' document' hread' hreworded
    exact ofText_eq_of_ofTable?_eq hread hread' (ofTable?_eq_of_eqvGen hreworded) origin

/-- One weight is set, in a text with nothing else, in one with a section of a key that is not known, and in one with all
defaults written out. -/
theorem ofText_of_one_weight :
    let origin : Path := .ofString "conf.toml"
    let text := "[weights]\nkeyword = 0.5\n".toList
    let reworded := "[weights]\nkeyword = 0.5\n[scan]\nindent = 4\n".toList
    let o : Overrides := ⟨⟨some 0.5, none, none, none, none⟩, none, none⟩
    ofText text origin = .ok o.merged ∧ ofText reworded origin = ofText text origin ∧
      ofText o.merged.text origin = ofText text origin := by
  intro origin text reworded o
  let document : List (Key × Value) := [("weights".toList, .table [("keyword".toList, .float 0.5)])]
  let indented : List (Key × Value) := document ++ [("scan".toList, .table [("indent".toList, .integer 4)])]
  have hweights : Writes text [.header ["weights".toList], .assign ["keyword".toList] (.float 0.5)] := by
    have hheader := @writes_of_line? "[weights]\n".toList (some (.header ["weights".toList])) (fun _ => rfl) (by decide)
    exact hheader.append (@writes_of_line? "keyword = 0.5\n".toList (some (.assign ["keyword".toList] (.float 0.5)))
      (fun _ => rfl) (by decide))
  have hscan : Writes "[scan]\nindent = 4\n".toList [.header ["scan".toList], .assign ["indent".toList] (.integer 4)] := by
    have hheader := @writes_of_line? "[scan]\n".toList (some (.header ["scan".toList])) (fun _ => rfl) (by decide)
    exact hheader.append (@writes_of_line? "indent = 4\n".toList (some (.assign ["indent".toList] (.integer 4)))
      (fun _ => rfl) (by decide))
  have hread : document? text = some document := hweights.document?_eq (by decide)
  have hread' : document? reworded = some indented := (hweights.append hscan).document?_eq (by decide)
  have hreworded : Relation.EqvGen Rewords document indented := by
    have hempty : Rewords document (document ++ [("scan".toList, .table [])]) := .emptySection .extensions rfl
    have hunknown : ∀ f : Field, f.table.toList = "scan".toList → f.name.toList ≠ "indent".toList := by
      intro f htable
      cases f with
      | weight a => exact absurd htable (by change "weights".toList ≠ "scan".toList; decide)
      | extensions => decide
      | threshold => decide
    have hindent : Rewords (document ++ [("scan".toList, .table [])]) indented :=
      @Rewords.unknownKey _ "scan".toList "indent".toList [] rfl hunknown (.integer 4)
    exact .trans _ _ _ (.rel _ _ hempty) (.rel _ _ hindent)
  have htable : document.lookup "weights".toList = some (.table [("keyword".toList, .float 0.5)]) := rfl
  have hgiven : o.AreGivenBy document := by
    refine ⟨fun f => ?_, fun a => ?_, .absent, .absent⟩
    · cases f with
      | weight a =>
        change IsSection (document.lookup "weights".toList)
        rw [htable]
        exact .table _
      | extensions => exact .missing
      | threshold => exact .missing
    · cases a with
      | keyword => exact @Reads.given _ numberOf? (.float 0.5) 0.5 rfl
      | identifier | operator | sequence | length => exact .absent
  have hwritten : ∀ f v, given? document f = some v → v = f.value o.merged := by
    intro f v hv
    rcases f with (_ | _ | _ | _ | _) | _ | _
    · exact (Option.some.inj hv).symm
    all_goals exact absurd hv.symm (Option.some_ne_none v)
  have hcheck : o.merged.check = .ok () := by
    refine check_eq_ok_iff.2 ⟨?_, by decide, inUnit_zero⟩
    simp only [← isUsable_eq_false_iff]
    intro aspect
    cases aspect <;> decide +kernel
  have hall := (ofText_of_partial_document text origin).2.2 _ hread
  obtain ⟨hok, _, hsame⟩ := hall.1 o hgiven
  refine ⟨(hok o.merged).2 ⟨hcheck, rfl⟩, hall.2.2 _ _ hread' hreworded, ?_⟩
  exact hsame _ _ (document?_text (isFinite_of_check hcheck)) (hgiven.writesOut hwritten)

end Likeness.Settings
