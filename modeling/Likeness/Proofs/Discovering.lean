import Likeness.Discovery
import Likeness.Proofs.EntryPaths

/-!
# What is discovered

Discovery finds the source files below a folder, each once and in the order of paths.

* (trees) `Node.IsTree` says what a file tree is like, and is what the inductions here are on.
* (members) `mem_sourcesOf` says along which names a file is found: no name on the way is left out, and no folder has a path
  that is too long.
* (order) entries taken in the order of their names give paths in the order of paths (`increasing_sourcesOf`).
* (discovery) `IsSourceBelow` says which files are sources, whatever the way in which they are looked for, and
  `discover_isExact` that discovery finds these.
-/

namespace Likeness

/-! ### Trees -/

/-- A file tree in which the entries of every folder have different names, all of them names that an entry can have. -/
inductive Node.IsTree : Node → Prop
  | file (bytes : List UInt8) : IsTree (.file bytes)
  | link (target : List Char) : IsTree (.link target)
  | folder {entries : List (Name × Node)} (names : ∀ entry ∈ entries, IsEntryName entry.1)
      (distinct : entries.Pairwise (·.1 ≠ ·.1)) (trees : ∀ entry ∈ entries, IsTree entry.2) : IsTree (.folder entries)

theorem Node.descend_cons {entries : List (Name × Node)} (name : Name) (names : List Name) :
    (Node.folder entries).descend (name :: names) = (entries.lookup name).bind (·.descend names) := by
  rw [descend]

/-- Every subtree of a tree is a tree, and the names that lead to it are names of entries. -/
theorem Node.IsTree.descend {node : Node} (h : node.IsTree) {names : List Name} {below : Node}
    (hbelow : node.descend names = some below) : below.IsTree ∧ ∀ name ∈ names, IsEntryName name := by
  induction names generalizing node with
  | nil =>
    rw [Node.descend] at hbelow
    cases hbelow
    exact ⟨h, by simp⟩
  | cons name names ih =>
    cases h with
    | file => cases hbelow
    | link => cases hbelow
    | folder hnames distinct trees =>
      rw [Node.descend_cons, Option.bind_eq_some_iff] at hbelow
      obtain ⟨child, hchild, hbelow⟩ := hbelow
      have hmem := mem_of_lookup_eq_some hchild
      obtain ⟨htree, hrest⟩ := ih (trees _ hmem) hbelow
      exact ⟨htree, List.forall_mem_cons.2 ⟨hnames _ hmem, hrest⟩⟩

/-! ### Members -/

theorem mem_inNameOrder {α : Type} {found : List (Name × List α)} {x : α} :
    x ∈ inNameOrder found ↔ ∃ entry ∈ found, x ∈ entry.2 := by
  simp only [inNameOrder, List.mem_flatMap, List.mem_mergeSort]

section

variable {settings : Settings}

theorem mem_sourcesOfEntries {path : Path} {entries : List (Name × Node)} {found : Name × List Path} :
    found ∈ sourcesOfEntries settings path entries ↔
      ∃ entry ∈ entries, isPruned entry.1 = false ∧ found = (entry.1, sourcesOf settings (path.join entry.1) entry.2) := by
  induction entries with
  | nil => simp [sourcesOfEntries]
  | cons entry entries ih =>
    obtain ⟨name, node⟩ := entry
    rw [sourcesOfEntries]
    by_cases h : isPruned name = true
    · simp [h, ih]
    · simp [h, ih]

/-- The names under which something is found are those of the entries. -/
theorem sublist_sourcesOfEntries (path : Path) (entries : List (Name × Node)) :
    ((sourcesOfEntries settings path entries).map Prod.fst).Sublist (entries.map Prod.fst) := by
  induction entries with
  | nil => simp [sourcesOfEntries]
  | cons entry entries ih =>
    obtain ⟨name, node⟩ := entry
    rw [sourcesOfEntries]
    split
    · exact ih.cons name
    · exact ih.cons_cons name

/-- A path can be followed along names: none of them is left out, and no folder on the way has a path that is too long. -/
def Path.Passes : Path → List Name → Prop
  | _, [] => True
  | path, name :: names => path.isTooLong = false ∧ isPruned name = false ∧ (path.join name).Passes names

theorem Path.passes_concat {path : Path} {folders : List Name} {name : Name} :
    path.Passes (folders ++ [name]) ↔ (∀ folder ∈ folders, isPruned folder = false) ∧ isPruned name = false ∧
      ∀ opened, opened <+: folders → (opened.foldl join path).isTooLong = false := by
  induction folders generalizing path with
  | nil => simp [Passes, and_comm]
  | cons folder folders ih =>
    rw [List.cons_append, Passes, ih, List.forall_mem_cons]
    constructor
    · rintro ⟨hlong, hkept, hfolders, hname, hopen⟩
      refine ⟨⟨hkept, hfolders⟩, hname, fun opened hopened => ?_⟩
      rcases List.prefix_cons_iff.1 hopened with rfl | ⟨rest, rfl, hrest⟩
      · exact hlong
      · exact hopen rest hrest
    · rintro ⟨⟨hkept, hfolders⟩, hname, hopen⟩
      exact ⟨hopen [] (List.nil_prefix), hkept, hfolders, hname,
        fun opened hopened => hopen (folder :: opened) (List.cons_prefix_cons.2 ⟨rfl, hopened⟩)⟩

/-- What is found in a tree: the files to which names lead along which the path can be followed, if they are sources. -/
theorem mem_sourcesOf {node : Node} (h : node.IsTree) {path p : Path} :
    p ∈ sourcesOf settings path node ↔ ∃ names bytes, node.descend names = some (.file bytes) ∧
      p = names.foldl Path.join path ∧ settings.isSource p = true ∧ path.Passes names := by
  -- on the tree: the first name picks an entry of the folder, and the other names lead on from there
  induction h generalizing path with
  | file bytes =>
    rw [sourcesOf]
    constructor
    · intro hp
      split at hp
      · next hsource =>
        obtain rfl := List.mem_singleton.1 hp
        exact ⟨[], bytes, rfl, rfl, hsource, trivial⟩
      · cases hp
    · rintro ⟨names, _, hdescend, rfl, hsource, _⟩
      cases names with
      | nil =>
        rw [List.foldl_nil] at hsource ⊢
        rw [if_pos hsource]
        exact List.mem_singleton_self _
      | cons name names => cases hdescend
  | link target =>
    rw [sourcesOf]
    constructor
    · intro hp
      cases hp
    · rintro ⟨names, _, hdescend, _⟩
      cases names <;> cases hdescend
  | @folder entries hnames distinct trees ih =>
    rw [sourcesOf]
    constructor
    · intro hp
      by_cases hlong : path.isTooLong = true
      · rw [if_pos hlong] at hp
        cases hp
      · rw [if_neg hlong, mem_inNameOrder] at hp
        obtain ⟨_, hfound, hp⟩ := hp
        obtain ⟨⟨name, node⟩, hentry, hkept, rfl⟩ := mem_sourcesOfEntries.1 hfound
        obtain ⟨names, bytes, hdescend, rfl, hsource, hpasses⟩ := (ih _ hentry).1 hp
        refine ⟨name :: names, bytes, ?_, rfl, hsource, Bool.eq_false_iff.2 hlong, hkept, hpasses⟩
        rw [Node.descend_cons, (lookup_eq_some_iff_mem distinct).2 hentry]
        exact hdescend
    · rintro ⟨names, bytes, hdescend, rfl, hsource, hpasses⟩
      cases names with
      | nil => cases hdescend
      | cons name names =>
        rw [Node.descend_cons, Option.bind_eq_some_iff] at hdescend
        obtain ⟨node, hnode, hdescend⟩ := hdescend
        have hentry := mem_of_lookup_eq_some hnode
        obtain ⟨hlong, hkept, hpasses⟩ := hpasses
        rw [if_neg (Bool.eq_false_iff.1 hlong), mem_inNameOrder]
        refine ⟨_, mem_sourcesOfEntries.2 ⟨_, hentry, hkept, rfl⟩, ?_⟩
        exact (ih _ hentry).2 ⟨names, bytes, hdescend, rfl, hsource, hpasses⟩

/-! ### Order -/

instance : Std.TransCmp compareNames :=
  inferInstanceAs (Std.TransCmp (compare : Name → Name → Ordering))

instance : Std.LawfulEqCmp compareNames :=
  inferInstanceAs (Std.LawfulEqCmp (compare : Name → Name → Ordering))

/-- Sorting entries of different names puts the names in strictly increasing order. -/
theorem pairwise_compareNames {α : Type} {found : List (Name × α)} (distinct : (found.map Prod.fst).Nodup) :
    (found.mergeSort fun a b => (compareNames a.1 b.1).isLE).Pairwise fun a b => compareNames a.1 b.1 = .lt := by
  have htrans : ∀ a b c : Name × α, (compareNames a.1 b.1).isLE = true → (compareNames b.1 c.1).isLE = true →
      (compareNames a.1 c.1).isLE = true := fun a b c => @Std.TransCmp.isLE_trans _ compareNames _ a.1 b.1 c.1
  have htotal : ∀ a b : Name × α, ((compareNames a.1 b.1).isLE || (compareNames b.1 a.1).isLE) = true := by
    intro a b
    rw [@Std.OrientedCmp.eq_swap _ compareNames _ b.1]
    cases compareNames a.1 b.1 <;> rfl
  have hsorted := List.pairwise_mergeSort htrans htotal found
  have hdistinct : (found.mergeSort fun a b => (compareNames a.1 b.1).isLE).Pairwise fun a b => a.1 ≠ b.1 :=
    (List.mergeSort_perm _ _).symm.pairwise (List.pairwise_map.1 distinct) Ne.symm
  refine (hsorted.and hdistinct).imp fun {a b} h => ?_
  cases hcmp : compareNames a.1 b.1 with
  | lt => rfl
  | eq => exact absurd (@Std.LawfulEqCmp.eq_of_compare _ compareNames _ _ _ hcmp) h.2
  | gt =>
    rw [hcmp] at h
    cases h.1

/-- Paths found below the entries of a folder are in increasing order if those of each entry are. -/
theorem increasing_inNameOrder {folder : Path} {found : List (Name × List Path)}
    (distinct : (found.map Prod.fst).Nodup) (increasing : ∀ entry ∈ found, Path.Increasing entry.2)
    (below : ∀ entry ∈ found, ∀ p ∈ entry.2, ∃ rest, p.components = folder.components ++ .name entry.1 :: rest) :
    Path.Increasing (inNameOrder found) := by
  unfold Path.Increasing inNameOrder
  refine List.pairwise_flatMap.2 ⟨fun entry hentry => increasing entry (List.mem_mergeSort.1 hentry), ?_⟩
  -- below different entries the first names that differ are those of the entries
  refine (pairwise_compareNames distinct).imp_of_mem fun {a b} ha hb hlt p hp q hq => ?_
  obtain ⟨s, hs⟩ := below a (List.mem_mergeSort.1 ha) p hp
  obtain ⟨t, ht⟩ := below b (List.mem_mergeSort.1 hb) q hq
  exact Path.compare_of_names hs ht hlt

theorem components_of_mem_sourcesOf {node : Node} (h : node.IsTree) {path p : Path} (hp : p ∈ sourcesOf settings path node) :
    ∃ rest, p.components = path.components ++ rest := by
  obtain ⟨names, bytes, hdescend, rfl, _⟩ := (mem_sourcesOf h).1 hp
  exact ⟨_, Path.components_foldl_join path (h.descend hdescend).2⟩

theorem increasing_sourcesOfEntries {path : Path} {entries : List (Name × Node)}
    (htree : (Node.folder entries).IsTree)
    (increasing : ∀ entry ∈ entries, ∀ path, Path.Increasing (sourcesOf settings path entry.2)) :
    Path.Increasing (inNameOrder (sourcesOfEntries settings path entries)) := by
  cases htree with
  | folder hnames distinct trees =>
    refine @increasing_inNameOrder path _
      ((sublist_sourcesOfEntries path entries).nodup (List.pairwise_map.2 distinct)) ?_ ?_
    · intro found hfound
      obtain ⟨entry, hentry, _, rfl⟩ := mem_sourcesOfEntries.1 hfound
      exact increasing entry hentry _
    · intro found hfound p hp
      obtain ⟨entry, hentry, _, rfl⟩ := mem_sourcesOfEntries.1 hfound
      obtain ⟨rest, hrest⟩ := components_of_mem_sourcesOf (trees entry hentry) hp
      refine ⟨rest, ?_⟩
      rw [hrest, Path.components_join path (hnames entry hentry), List.append_assoc]
      rfl

theorem increasing_sourcesOf {node : Node} (h : node.IsTree) (path : Path) :
    Path.Increasing (sourcesOf settings path node) := by
  induction h generalizing path with
  | file bytes =>
    rw [sourcesOf]
    split
    · exact List.pairwise_singleton _ _
    · exact List.Pairwise.nil
  | link target =>
    rw [sourcesOf]
    exact List.Pairwise.nil
  | folder hnames distinct trees ih =>
    rw [sourcesOf]
    split
    · exact List.Pairwise.nil
    · exact increasing_sourcesOfEntries (.folder hnames distinct trees) ih

/-! ### Discovery -/

theorem isSource_join (path : Path) {name : Name} (hname : IsEntryName name) :
    settings.isSource (path.join name) = true ↔ ∃ extension, Path.extensionOf? name = some extension ∧
      ∃ allowed ∈ settings.extensions, Settings.lowerAscii allowed = Settings.lowerAscii extension := by
  unfold Settings.isSource
  rw [Path.extension?_join path hname]
  cases Path.extensionOf? name <;> simp

/-- Names that are left out have no extension, so that no source file has such a name. -/
theorem isPruned_of_extension {name extension : Name} (h : Path.extensionOf? name = some extension) :
    isPruned name = false := by
  have hnone : ∀ pruned ∈ prunedNames, Path.extensionOf? pruned = none := by decide
  refine Bool.eq_false_iff.2 fun hpruned => ?_
  rw [hnone name (List.contains_iff_mem.1 hpruned)] at h
  cases h

/-- A path is that of a source file below a folder with these entries: names of folders and a name lead to a file, without
following links; the name has the extension of a source file, up to the case of ASCII letters; and none of the folders on
the way is left out for its name or has a path that is too long to be looked up. -/
structure IsSourceBelow (settings : Settings) (root : Path) (entries : List (Name × Node)) (folders : List Name) (name : Name)
    (p : Path) : Prop where
  file : ∃ bytes, (Node.folder entries).descend (folders ++ [name]) = some (.file bytes)
  path : p = (folders.foldl Path.join root).join name
  extension : ∃ extension, Path.extensionOf? name = some extension ∧
    ∃ allowed ∈ settings.extensions, Settings.lowerAscii allowed = Settings.lowerAscii extension
  kept : ∀ folder ∈ folders, folder ∉ prunedNames
  opened : ∀ opened, opened <+: folders → (opened.foldl Path.join root).isTooLong = false

theorem mem_sourcesBelow {root p : Path} {entries : List (Name × Node)} (hroot : root.isTooLong = false)
    (htree : (Node.folder entries).IsTree) :
    p ∈ sourcesBelow settings root entries ↔ ∃ folders name, IsSourceBelow settings root entries folders name p := by
  have hsources : sourcesBelow settings root entries = sourcesOf settings root (.folder entries) := by
    rw [sourcesOf, if_neg (Bool.eq_false_iff.1 hroot), sourcesBelow]
  have hkept : ∀ folder, isPruned folder = false ↔ folder ∉ prunedNames := fun folder => by
    rw [isPruned, Bool.eq_false_iff, ne_eq, List.contains_iff_mem]
  rw [hsources, mem_sourcesOf htree]
  constructor
  · rintro ⟨names, bytes, hdescend, rfl, hsource, hpasses⟩
    have hentry := (htree.descend hdescend).2
    rcases List.eq_nil_or_concat names with rfl | ⟨folders, name, hconcat⟩
    · cases hdescend
    · rw [List.concat_eq_append] at hconcat
      subst hconcat
      obtain ⟨hfolders, _, hopen⟩ := Path.passes_concat.1 hpasses
      rw [List.foldl_append] at hsource ⊢
      exact ⟨folders, name, ⟨bytes, hdescend⟩, rfl,
        (isSource_join _ (hentry name (List.mem_append_right _ List.mem_cons_self))).1 hsource,
        fun folder hfolder => (hkept folder).1 (hfolders folder hfolder), hopen⟩
  · rintro ⟨folders, name, ⟨bytes, hdescend⟩, rfl, hextension, hfolders, hopen⟩
    have hentry := (htree.descend hdescend).2
    have hname := hentry name (List.mem_append_right _ List.mem_cons_self)
    -- the name of the file is tested as those of the folders are
    have hpruned := hextension.elim fun _ h => isPruned_of_extension h.1
    refine ⟨folders ++ [name], bytes, hdescend, ?_, (isSource_join _ hname).2 hextension, ?_⟩
    · rw [List.foldl_append]
      rfl
    · exact Path.passes_concat.2 ⟨fun folder hfolder => (hkept folder).2 (hfolders folder hfolder), hpruned, hopen⟩

theorem increasing_sourcesBelow {root : Path} {entries : List (Name × Node)} (htree : (Node.folder entries).IsTree) :
    Path.Increasing (sourcesBelow settings root entries) := by
  refine increasing_sourcesOfEntries htree ?_
  cases htree with
  | folder _ _ trees => exact fun entry hentry path => increasing_sourcesOf (trees entry hentry) path

theorem Workspace.isTree_of_find {w : Workspace} (hw : w.root.IsTree) {root : Path} {node : Node}
    (h : w.find root = .ok node) : root.isTooLong = false ∧ node.IsTree := by
  unfold find at h
  split at h
  · cases h
  · next place hplace =>
    split at h
    · next found hfound =>
      cases h
      refine ⟨?_, (hw.descend hfound).1⟩
      unfold locate at hplace
      split at hplace
      · cases hplace
      · next hfault =>
        unfold Path.fault? at hfault
        split_ifs at hfault with _ hlong _
        exact Bool.eq_false_iff.2 hlong
    · cases h

end

/-- Below a path that leads to a folder, discovery finds exactly the source files, each once and in the order of paths. -/
theorem discover_isExact {w : Workspace} (hw : w.root.IsTree) {root : Path} {entries : List (Name × Node)}
    (hroot : w.find root = .ok (.folder entries)) (settings : Settings) :
    ∃ paths, discover w.disk settings root = .ok paths ∧
      (∀ p, p ∈ paths ↔ ∃ folders name, IsSourceBelow settings root entries folders name p) ∧ paths.Nodup ∧
      Path.Increasing paths := by
  obtain ⟨hlong, htree⟩ := Workspace.isTree_of_find hw hroot
  have hentries : w.disk.entries root = .ok entries := by
    change w.entriesAt root = _
    rw [Workspace.entriesAt, hroot]
  have hincreasing : Path.Increasing (sourcesBelow settings root entries) := increasing_sourcesBelow htree
  refine ⟨sourcesBelow settings root entries, ?_, fun p => mem_sourcesBelow hlong htree, hincreasing.nodup, hincreasing⟩
  rw [discover, hentries]

/-- A folder next to a file of almost the same name, a folder that is left out, and a link. -/
theorem discovery_in_small_tree :
    let entries : List (Name × Node) := [("target".toList, .folder [("C.java".toList, .file [])]),
      ("a.java".toList, .file []), ("a".toList, .folder [("B.JAVA".toList, .file [])]), ("l.java".toList, .link ['a'])]
    let w : Workspace := ⟨.folder entries, []⟩
    w.find (.ofString ".") = .ok (.folder entries) ∧ ∃ paths, discover w.disk .default (.ofString ".") = .ok paths ∧
      Path.ofString "./a/B.JAVA" ∈ paths ∧ Path.Increasing paths := by
  intro entries w
  have hw : w.root.IsTree := by
    refine .folder (by decide) (by decide) ?_
    have hleaf : ∀ name, IsEntryName name → (Node.folder [(name, .file [])]).IsTree := fun name hname =>
      .folder (by simpa using hname) (by simp) (by simpa using Node.IsTree.file [])
    simp only [entries, List.forall_mem_cons]
    exact ⟨hleaf _ (by decide), .file _, hleaf _ (by decide), .link _, by simp⟩
  have hroot : w.find (.ofString ".") = .ok (.folder entries) := by
    have hfault : (Path.ofString ".").fault? = none := by decide
    have hsteps : Node.steps (Path.ofString ".").text = [['.']] := by decide
    have hwalk : w.root.walk false Node.linkLimit [] [['.']] = .ok [] := by simp [w, Node.walk, Node.descend]
    have hlocate : w.locate (.ofString ".") = .ok [] := by
      rw [Workspace.locate, hfault, hsteps]
      exact hwalk
    rw [Workspace.find, hlocate]
    rfl
  obtain ⟨paths, hpaths, hmem, _, hincreasing⟩ := discover_isExact hw hroot .default
  refine ⟨hroot, paths, hpaths, (hmem _).2 ⟨[['a']], "B.JAVA".toList, ⟨[], ?_⟩, ?_, ?_, by decide, ?_⟩, hincreasing⟩
  · have hfolder : entries.lookup ['a'] = some (.folder [("B.JAVA".toList, .file [])]) := rfl
    rw [List.singleton_append, Node.descend_cons, hfolder]
    rfl
  · decide
  · exact ⟨"JAVA".toList, by decide, "java".toList, by decide, by decide⟩
  · intro opened hopened
    rcases List.prefix_cons_iff.1 hopened with rfl | ⟨rest, rfl, hrest⟩
    · decide
    · rw [List.prefix_nil.1 hrest]
      decide

end Likeness
