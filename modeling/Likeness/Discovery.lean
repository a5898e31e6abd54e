import Likeness.Files.Disk
import Likeness.Settings.Basic

/-!
# Finding source files

* `sourcesBelow` lists the source files below a folder, entries in the order of their names;
* `discover` does so for the folder where a path leads.

Folders that hold no sources of their own are left out by name, links are not followed, and a folder whose path is too long
to be looked up is passed over.  Other folders that cannot be opened are not in the tree: whoever lists the entries passes
over them.
-/

namespace Likeness

/-- The names of folders that are never looked into. -/
def prunedNames : List Name :=
  [".git", "node_modules", "target", "build", "out", ".venv", ".cache"].map String.toList

/-- Whether entries with a name are left out. -/
def isPruned (name : Name) : Bool :=
  prunedNames.contains name

/-- The entries that are found for each name, put together in the order of the names. -/
def inNameOrder (found : List (Name × List α)) : List α :=
  (found.mergeSort fun a b => (compareNames a.1 b.1).isLE).flatMap Prod.snd

mutual

/-- The source files of a tree, whose root is shown as a path. -/
def sourcesOf (settings : Settings) (path : Path) : Node → List Path
  | .file _ => if settings.isSource path then [path] else []
  | .link _ => []
  | .folder entries => if path.isTooLong then [] else inNameOrder (sourcesOfEntries settings path entries)

/-- The source files of each entry of a folder that is not left out. -/
def sourcesOfEntries (settings : Settings) (path : Path) : List (Name × Node) → List (Name × List Path)
  | [] => []
  | (name, node) :: entries =>
    let more := sourcesOfEntries settings path entries
    if isPruned name then more else (name, sourcesOf settings (path.join name) node) :: more

end

/-- The source files below a folder, given by its entries. -/
def sourcesBelow (settings : Settings) (path : Path) (entries : List (Name × Node)) : List Path :=
  inNameOrder (sourcesOfEntries settings path entries)

/-- The source files below the folder where a path leads. -/
def discover (disk : Disk) (settings : Settings) (root : Path) : Except Failure (List Path) :=
  match disk.entries root with
  | .error cause => .error (.io cause root)
  | .ok entries => .ok (sourcesBelow settings root entries)

end Likeness
