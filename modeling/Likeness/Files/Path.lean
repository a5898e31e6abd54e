/-!
# Paths

A path is a text.  What it names is decided by its components, the parts between slashes, among which empty parts and inner
single dots do not count.

Names of files are bytes to a file system.  Here they are Unicode text, so that a name has one reading only: its extension
is a text, it is compared with other names as it is, and every report can show it.  Names that are no UTF-8 are left out.

* `Path.components` and the order `Path.compare` by components;
* `Path.extension?` is what follows the last dot of the last name, if something precedes it;
* `Path.relativeTo?` is the rest of a path below another one;
* `Path.join` is the path of an entry of a folder.
-/

namespace Likeness

/-- The name of an entry of a folder, which is UTF-8. -/
abbrev Name := List Char

/-- A path, kept as it is written. -/
structure Path where
  text : List Char
  deriving DecidableEq, Repr

/-- A component of a path. -/
inductive Component where
  /-- The slash that an absolute path starts with. -/
  | root
  /-- The single dot that a path may start with. -/
  | here
  /-- Two dots. -/
  | parent
  | name (name : Name)
  deriving DecidableEq, Repr

/-- The place of a component in the order: the kinds in turn, and names by their characters. -/
def Component.key : Component → Nat × Name
  | .root => (0, [])
  | .here => (1, [])
  | .parent => (2, [])
  | .name n => (3, n)

/-- The order of names by their characters, which is the order of their bytes. -/
def compareNames (a b : Name) : Ordering :=
  compare a b

/-- The order of components. -/
def Component.compare (a b : Component) : Ordering :=
  (Ord.compare a.key.1 b.key.1).then (compareNames a.key.2 b.key.2)

/-- The parts of a text between slashes; there is always at least one. -/
def segments : List Char → List Name
  | [] => [[]]
  | c :: text =>
    if c = '/' then [] :: segments text
    else match segments text with
      | [] => [[c]]
      | part :: parts => (c :: part) :: parts

/-- Whether a part of a path does not count: it is empty or a single dot. -/
def isIdle (part : Name) : Bool :=
  part = [] || part = ['.']

namespace Path

/-- The path of a string. -/
def ofString (s : String) : Path :=
  ⟨s.toList⟩

/-- A path as it is shown. -/
def display (p : Path) : String :=
  String.ofList p.text

/-- The component that a path starts with apart from its names, and the parts after it. -/
def split (p : Path) : Option Component × List Name :=
  match segments p.text with
  | [] => (none, [])
  | part :: parts =>
    if part = [] ∧ parts ≠ [] then (some .root, parts)
    else if part = ['.'] then (some .here, parts)
    else (none, part :: parts)

/-- The component that a part stands for, if it counts. -/
def componentOf (part : Name) : Option Component :=
  if isIdle part then none else if part = ['.', '.'] then some .parent else some (.name part)

/-- The components of a path, from left to right. -/
def components (p : Path) : List Component :=
  p.split.1.toList ++ p.split.2.filterMap componentOf

/-- The order of lists of components, the first difference deciding. -/
def compareComponents : List Component → List Component → Ordering
  | [], [] => .eq
  | [], _ :: _ => .lt
  | _ :: _, [] => .gt
  | a :: as, b :: bs => (a.compare b).then (compareComponents as bs)

/-- The order of paths, by components. -/
def compare (p q : Path) : Ordering :=
  compareComponents p.components q.components

/-- The last component of a path if it is a name. -/
def fileName? (p : Path) : Option Name :=
  match p.components.getLast? with
  | some (.name n) => some n
  | _ => none

/-- What follows the last dot of a name, if there is a dot that does not start the name. -/
def extensionOf? (n : Name) : Option Name :=
  let after := (n.reverse.takeWhile (· ≠ '.')).reverse
  if after.length + 1 < n.length then some after else none

/-- The extension of the last name of a path. -/
def extension? (p : Path) : Option Name :=
  p.fileName?.bind extensionOf?

/-- The path of an entry of a folder. -/
def join (p : Path) (n : Name) : Path :=
  if p.text = [] ∨ p.text.getLast? = some '/' then ⟨p.text ++ n⟩ else ⟨p.text ++ '/' :: n⟩

/-- Parts without the idle ones at the end. -/
private def trimEnd (parts : List Name) : List Name :=
  (parts.reverse.dropWhile isIdle).reverse

/-- Parts written with slashes between them. -/
private def written (parts : List Name) : List Char :=
  ['/'].intercalate parts

/-- Drops as many parts that count as asked for, and the idle parts around them. -/
private def dropParts : Nat → List Name → List Name
  | _, [] => []
  | 0, part :: parts => if isIdle part then dropParts 0 parts else part :: parts
  | n + 1, part :: parts => if isIdle part then dropParts (n + 1) parts else dropParts n parts

/-- The rest of a path whose first components are those of another path.  Below the empty path it is the path itself, less
idle parts at the end. -/
def relativeTo? (p root : Path) : Option Path :=
  let start := root.components
  if start.isPrefixOf p.components then
    let (opening, parts) := p.split
    if start = [] then
      some ⟨match opening with
        | some .root => '/' :: written (trimEnd parts)
        | some _ => written (['.'] :: trimEnd parts)
        | none => written (trimEnd parts)⟩
    else
      let taken := if opening.isSome then start.length - 1 else start.length
      some ⟨written (trimEnd (dropParts taken parts))⟩
  else none

end Path

end Likeness
