import Likeness.Files.Workspace

/-!
# What can be read

A disk answers three questions about paths.  All reading goes through it, so that what the program does is a function of the
answers.

* `Disk.readSource` reads a source text and repairs what is not UTF-8;
* `Disk.readText` reads a text and refuses what is not UTF-8;
* `Workspace.disk` is the disk of a workspace.
-/

namespace Likeness

/-- The answers to questions about paths. -/
structure Disk where
  /-- The bytes of the file where a path leads. -/
  bytes : Path → Except IoCause (List UInt8)
  /-- Whether a path leads to a file. -/
  isFile : Path → Bool
  /-- The entries of the folder where a path leads. -/
  entries : Path → Except IoCause (List (Name × Node))

namespace Disk

/-- The text of a source file, in which U+FFFD stands for what is not UTF-8. -/
def readSource (disk : Disk) (path : Path) : Except IoCause (List Char) :=
  (disk.bytes path).map Utf8.repair

/-- The text of a file that has to be UTF-8. -/
def readText (disk : Disk) (path : Path) : Except IoCause (List Char) :=
  match disk.bytes path with
  | .error cause => .error cause
  | .ok bytes =>
    match Utf8.decode? bytes with
    | some text => .ok text
    | none => .error .notUtf8

end Disk

namespace Workspace

/-- The bytes of the file where a path leads in a workspace. -/
def bytesAt (w : Workspace) (path : Path) : Except IoCause (List UInt8) :=
  match w.find path with
  | .error cause => .error cause
  | .ok (.file bytes) => .ok bytes
  | .ok _ => .error .isAFolder

/-- Whether a path leads to a file in a workspace. -/
def isFileAt (w : Workspace) (path : Path) : Bool :=
  match w.find path with
  | .ok (.file _) => true
  | _ => false

/-- The entries of the folder where a path leads in a workspace. -/
def entriesAt (w : Workspace) (path : Path) : Except IoCause (List (Name × Node)) :=
  match w.find path with
  | .error cause => .error cause
  | .ok (.folder entries) => .ok entries
  | .ok _ => .error .notAFolder

/-- The disk of a workspace. -/
def disk (w : Workspace) : Disk :=
  ⟨w.bytesAt, w.isFileAt, w.entriesAt⟩

end Workspace

end Likeness
