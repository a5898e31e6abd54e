/-!
# Why a file cannot be read

The causes that reading a file or a folder can fail with, and their texts.
-/

namespace Likeness

/-- Why a path cannot be read. -/
inductive IoCause where
  | noSuchFile
  | notAFolder
  | isAFolder
  | nameTooLong
  | tooManyLinks
  /-- The path holds the character NUL. -/
  | nulInPath
  /-- A text was asked for and the bytes are not UTF-8. -/
  | notUtf8
  | other (text : String)
  deriving DecidableEq, Repr

/-- The text of a cause. -/
def IoCause.message : IoCause → String
  | noSuchFile => "No such file or directory (os error 2)"
  | notAFolder => "Not a directory (os error 20)"
  | isAFolder => "Is a directory (os error 21)"
  | nameTooLong => "File name too long (os error 36)"
  | tooManyLinks => "Too many levels of symbolic links (os error 40)"
  | nulInPath => "file name contained an unexpected NUL byte"
  | notUtf8 => "stream did not contain valid UTF-8"
  | other text => text

end Likeness
