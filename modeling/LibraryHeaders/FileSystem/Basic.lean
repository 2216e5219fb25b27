import LibraryHeaders.Path

/-!
# File systems

What a resolution asks of a file system. Its answers are fixed: nothing is written, and the same
question has the same answer throughout.
-/

namespace LibraryHeaders

/-- What a file is, whatever path leads to it. -/
inductive FileId where
  | number (n : Nat)
  | directory (names : List Name)
  deriving DecidableEq, Repr

/-- Why a file system gives no answer. -/
inductive FileFault where
  | noSuchFile
  | notADirectory
  | isADirectory
  | nameTooLong
  | tooManyLinks
  | notUtf8
  | nulInName
  /-- A walk through a directory came to an entry that it could not read. -/
  | walking (path : Path) (cause : FileFault)
  | custom (text : String)
  deriving DecidableEq, Repr

def FileFault.message : FileFault → String
  | .noSuchFile => "No such file or directory (os error 2)"
  | .notADirectory => "Not a directory (os error 20)"
  | .isADirectory => "Is a directory (os error 21)"
  | .nameTooLong => "File name too long (os error 36)"
  | .tooManyLinks => "Too many levels of symbolic links (os error 40)"
  | .notUtf8 => "stream did not contain valid UTF-8"
  | .nulInName => "file name contained an unexpected NUL byte"
  | .walking path cause => "IO error for operation on " ++ path.text ++ ": " ++ cause.message
  | .custom text => text

structure FileSystem where
  /-- The path names an existing regular file, links followed. -/
  isFile : Path → Bool
  /-- The path names an existing directory, links followed. -/
  isDir : Path → Bool
  /-- The path made absolute, without a look at links. -/
  absolute : Path → Path
  identity : Path → Option FileId
  /-- All header files below a directory. -/
  headersBelow : Path → Except FileFault (List Path)
  read : Path → Except FileFault String

end LibraryHeaders
