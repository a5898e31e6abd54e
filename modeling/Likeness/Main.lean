import Likeness.Command.Arguments
import Likeness.Command.Run

/-!
# The program

Looks up on the real disk what the command line names, carries the command out on what was found, and prints the outcome.
All that is read goes into a `Disk`, and `Command.run` does the rest.  Only what has no place in a file tree is passed over here:
folders below the first that cannot be opened, and entries that are neither files nor links nor folders.
-/

namespace Likeness.Program

/-- The cause that an error number of the system stands for; some of its functions give the number with the sign changed. -/
def causeOfNumber? (number : UInt32) : Option IoCause :=
  match min number.toNat (-number).toNat with
  | 2 => some .noSuchFile
  | 20 => some .notAFolder
  | 21 => some .isAFolder
  | 36 => some .nameTooLong
  | 40 => some .tooManyLinks
  | _ => none

/-- The cause of an error of the system. -/
def causeOf (error : IO.Error) : IoCause :=
  let cause? := match error with
    | .noFileOrDirectory _ number _ => causeOfNumber? number
    | .inappropriateType _ number _ => causeOfNumber? number
    | .invalidArgument _ number _ => causeOfNumber? number
    | _ => none
  cause?.getD (.other (toString error))

/-- The result of an action, or the cause of its error. -/
def attempt (action : IO α) : IO (Except IoCause α) := do
  try return .ok (← action) catch error => return .error (causeOf error)

/-- The bytes of a file. -/
def readBytes (path : Path) : IO (Except IoCause (List UInt8)) :=
  attempt do return (← IO.FS.readBinFile path.display).toList

/-- The entries of a folder and of the folders in it that are looked into; files are listed without what they hold. -/
partial def listFolder (folder : String) : IO (List (Name × Node)) := do
  let mut entries := []
  for entry in ← (← IO.FS.realPath folder).readDir do
    let name := entry.fileName.toList
    match (← entry.path.symlinkMetadata).type with
    | .file => entries := (name, .file []) :: entries
    | .symlink => entries := (name, .link []) :: entries
    | .dir =>
      if !isPruned name then
        match ← attempt (listFolder entry.path.toString) with
        | .ok below => entries := (name, .folder below) :: entries
        | .error _ => pure ()
    | .other => pure ()
  return entries

/-- The entries of the folder where a path leads.  If it leads to none, reading a file there says why. -/
def readEntries (path : Path) : IO (Except IoCause (List (Name × Node))) := do
  match ← readBytes path with
  | .ok _ => return .error .notAFolder
  | .error .isAFolder => attempt (listFolder path.display)
  | .error cause => return .error cause

/-- What was looked up on the disk. -/
structure Snapshot where
  files : List (Path × Except IoCause (List UInt8))
  folders : List (Path × Except IoCause (List (Name × Node)))

/-- The answers that a snapshot gives; what was not looked up does not exist. -/
def Snapshot.disk (s : Snapshot) : Disk where
  bytes path := (s.files.lookup path).getD (.error .noSuchFile)
  isFile path := match s.files.lookup path with
    | some (.ok _) => true
    | some (.error cause) => cause ∉ [.noSuchFile, .notAFolder, .isAFolder, .nameTooLong, .tooManyLinks]
    | none => false
  entries path := (s.folders.lookup path).getD (.error .noSuchFile)

/-- A snapshot with some more files. -/
def Snapshot.addFiles (s : Snapshot) (paths : List Path) : IO Snapshot := do
  let found ← paths.mapM fun path => return (path, ← readBytes path)
  return { s with files := s.files ++ found }

/-- A snapshot with a folder and the source files below it. -/
def Snapshot.addFolder (s : Snapshot) (settings : Settings) (folder : Path) : IO Snapshot := do
  let s := { s with folders := (folder, ← readEntries folder) :: s.folders }
  match discover s.disk settings folder with
  | .ok paths => s.addFiles paths
  | .error _ => return s

/-- Looks up what a command line names. -/
def lookUp (invocation : Command.Invocation) : IO Snapshot := do
  let s ← (⟨[], []⟩ : Snapshot).addFiles [invocation.settings.getD Settings.fileName]
  match invocation.task, Settings.load s.disk invocation.settings with
  | some (.compare a b _), _ => s.addFiles [a, b]
  | some (.features a b), _ => s.addFiles [a, b]
  | some (.matrix folder extensions threshold _), .ok settings =>
    s.addFolder (Command.overridden settings extensions threshold) folder
  | _, _ => return s

end Likeness.Program

open Likeness in
/-- Reads the command line, carries it out and prints the outcome. -/
def main (arguments : List String) : IO UInt32 := do
  let began ← IO.monoMsNow
  match Command.readInvocation (arguments.map String.toList) with
  | .error fault =>
    let channel ← if fault.exitCode = 0 then IO.getStdout else IO.getStderr
    channel.putStr fault.text
    return fault.exitCode.toUInt32
  | .ok invocation =>
    let stdout ← IO.getStdout
    let coloured ← stdout.isTty
    let outcome := Command.run (← Program.lookUp invocation).disk coloured invocation
    match outcome.ending with
    | .ok code =>
      stdout.putStr (outcome.stdout ((← IO.monoMsNow) - began))
      (← IO.getStderr).putStr outcome.stderr
      return code.toNat.toUInt32
    | .error mishap =>
      (← IO.getStderr).putStrLn (Command.errorWord coloured ++ " " ++ mishap.account)
      return Command.ExitCode.error.toNat.toUInt32
