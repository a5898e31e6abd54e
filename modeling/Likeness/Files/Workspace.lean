import Likeness.Files.Node

/-!
# Workspaces

A workspace is a file tree with a current folder, from which paths that do not start with a slash are looked up.

* `Path.fault?` says which paths cannot be looked up anywhere;
* `Workspace.find` is the tree where a path leads.
-/

namespace Likeness

namespace Path

/-- The longest path that can be looked up, in bytes. -/
def limit : Nat := 4095

/-- Whether a path is too long to be looked up. -/
def isTooLong (p : Path) : Bool :=
  limit < Utf8.size p.text

/-- Why a path cannot be looked up, whatever files there are. -/
def fault? (p : Path) : Option IoCause :=
  if p.text.contains '\x00' then some .nulInPath
  else if p.isTooLong then some .nameTooLong
  else if p.text = [] then some .noSuchFile
  else none

end Path

/-- A file tree and the place of the current folder in it. -/
structure Workspace where
  root : Node
  here : List Name

namespace Workspace

/-- The place from which a path is looked up. -/
def start (w : Workspace) (path : Path) : List Name :=
  if isAbsolute path.text then [] else w.here

/-- The place where a path leads. -/
def locate (w : Workspace) (path : Path) : Except IoCause (List Name) :=
  match path.fault? with
  | some cause => .error cause
  | none => w.root.walk false Node.linkLimit (w.start path) (Node.steps path.text)

/-- The tree where a path leads. -/
def find (w : Workspace) (path : Path) : Except IoCause Node :=
  match w.locate path with
  | .error cause => .error cause
  | .ok place =>
    match w.root.descend place with
    | some node => .ok node
    | none => .error .noSuchFile

end Workspace

end Likeness
