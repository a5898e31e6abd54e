import Likeness.Files.Workspace
import Likeness.Keyed

/-!
# Changing a workspace

* `Node.put` and `Node.remove` change what is at a place of a tree;
* `Node.makeFolders` makes the folders that are missing on the way of some steps;
* `Workspace.writeFile`, `Workspace.makeFolder`, `Workspace.putLink` and `Workspace.removeFile` change what a path names.

A file is written where links lead, while a link is made and removed where its own name is.  The folders above what is made
are made too.  There is no result if a change cannot be made.
-/

namespace Likeness

namespace Node

/-- The entries of a folder; nothing else has any. -/
def entries : Node → List (Name × Node)
  | .folder entries => entries
  | _ => []

/-- The tree after a change at a place.  Folders that are missing on the way are made. -/
def put (new : Node) : List Name → Node → Node
  | [], _ => new
  | name :: names, node =>
    .folder (setKey node.entries name (put new names ((node.entries.lookup name).getD (.folder []))))

/-- The tree without what is at a place. -/
def remove : List Name → Node → Node
  | [], node => node
  | [name], node => .folder (node.entries.filter (·.1 ≠ name))
  | name :: names, node =>
    match node.entries.lookup name with
    | some below => .folder (setKey node.entries name (remove names below))
    | none => node

/-- Follows steps from a place and makes the folders that are missing.  Gives the tree afterwards and the place where the steps
lead.  A folder is not made where a link only promises one. -/
def makeFolders (root : Node) (place : List Name) : List Name → Option (Node × List Name)
  | [] => some (root, place)
  | step :: steps =>
    match root.walk true linkLimit place [step] with
    | .error _ => none
    | .ok next =>
      if (root.descend next).isSome then makeFolders root next steps
      else if next = place ++ [step] then makeFolders (put (.folder []) next root) next steps
      else none

end Node

namespace Workspace

/-- A workspace that holds nothing but the current folder. -/
def new (here : List Name) : Workspace :=
  ⟨Node.put (.folder []) here (.folder []), here⟩

/-- The workspace after the folder that a path names has been made, if it is missing.  The empty path names none. -/
def makeFolder (w : Workspace) (path : Path) : Option Workspace :=
  if path.text = [] then some w
  else if path.fault?.isSome then none
  else (w.root.makeFolders (w.start path) (Node.steps path.text)).map fun (root, _) => { w with root }

/-- The workspace after the folder above what a path names has been made, the place of that folder, and the last step of the
path. -/
def makeParent (w : Workspace) (path : Path) : Option (Workspace × List Name × Name) :=
  if path.fault?.isSome then none
  else
    let steps := Node.steps path.text
    match steps.getLast?, w.root.makeFolders (w.start path) steps.dropLast with
    | some last, some (root, folder) => some ({ w with root }, folder, last)
    | _, _ => none

/-- The workspace after a file has been written at a path. -/
def writeFile (w : Workspace) (path : Path) (bytes : List UInt8) : Option Workspace := do
  let (w, folder, last) ← w.makeParent path
  match w.root.walk true Node.linkLimit folder [last] with
  | .error _ => none
  | .ok place =>
    match w.root.descend place with
    | some (.folder _) => none
    | _ => some { w with root := Node.put (.file bytes) place w.root }

/-- The workspace after a link has been made at a path where nothing is yet. -/
def putLink (w : Workspace) (path : Path) (target : List Char) : Option Workspace := do
  let (w, folder, last) ← w.makeParent path
  if (Path.fault? ⟨target⟩).isSome ∨ last ∈ [['.'], ['.', '.']] then none
  else match w.root.descend folder with
    | some (.folder entries) =>
      if (entries.lookup last).isSome then none
      else some { w with root := Node.put (.link target) (folder ++ [last]) w.root }
    | _ => none

/-- The workspace without the file or link that a path names. -/
def removeFile (w : Workspace) (path : Path) : Option Workspace :=
  if path.fault?.isSome then none
  else
    let steps := Node.steps path.text
    match steps.getLast?, w.root.walk false Node.linkLimit (w.start path) steps.dropLast with
    | some last, .ok folder =>
      match w.root.descend (folder ++ [last]) with
      | none => none
      | some (.folder _) => none
      | some _ => some { w with root := Node.remove (folder ++ [last]) w.root }
    | _, _ => none

end Workspace

end Likeness
