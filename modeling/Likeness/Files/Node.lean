import Likeness.Files.IoCause
import Likeness.Files.Path
import Likeness.Text.Utf8

/-!
# File trees

A file tree is made of files, symbolic links, and folders with named entries.  A place in a tree is given by the names that
lead to it from the top.

Every file of a tree can be read and every folder opened.  Folders that cannot be opened are left out, and so are pipes,
devices and whatever else is neither file nor link nor folder.

* `Node.descend` looks up a place;
* `Node.walk` follows the steps of a path from a place, links included, to the place where they lead.

Every link that is followed is counted, and after 40 of them a path is refused, so that rings of links end.
-/

namespace Likeness

/-- A file tree. -/
inductive Node where
  | file (bytes : List UInt8)
  | link (target : List Char)
  | folder (entries : List (Name × Node))

/-- A text that starts with a slash is looked up from the top of a tree. -/
def isAbsolute (text : List Char) : Bool :=
  text.head? = some '/'

namespace Node

/-- The tree at the place that names lead to, links not being followed. -/
def descend : Node → List Name → Option Node
  | node, [] => some node
  | .folder entries, name :: names => (entries.lookup name).bind (descend · names)
  | _, _ :: _ => none

/-- The longest name an entry can have, in bytes. -/
def nameLimit : Nat := 255

/-- The number of links that are followed on the way to a place. -/
def linkLimit : Nat := 40

/-- The steps of a path: its parts but the empty ones.  A slash at the end is one more step, which stays in place. -/
def steps (text : List Char) : List Name :=
  (segments text).filter (· ≠ []) ++ if text.getLast? = some '/' then [['.']] else []

/-- Follows steps from a place to the place where they lead.  If something new is to be put there, the last step may name what
does not exist yet. -/
def walk (root : Node) (new : Bool) (links : Nat) (place : List Name) : List Name → Except IoCause (List Name)
  | [] => .ok place
  | step :: todo =>
    match root.descend place with
    | some (.folder entries) =>
      if step = ['.'] then walk root new links place todo
      else if step = ['.', '.'] then walk root new links place.dropLast todo
      else if nameLimit < Utf8.size step then .error .nameTooLong
      else match entries.lookup step with
        | none => if new ∧ todo = [] then .ok (place ++ [step]) else .error .noSuchFile
        | some (.link target) =>
          match links with
          | 0 => .error .tooManyLinks
          | links + 1 => walk root new links (if isAbsolute target then [] else place) (steps target ++ todo)
        | some _ => walk root new links (place ++ [step]) todo
    | _ => .error .notAFolder
termination_by todo => (links, todo.length)

end Node

end Likeness
