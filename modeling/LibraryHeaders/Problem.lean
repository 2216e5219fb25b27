import LibraryHeaders.FileSystem.Basic
import LibraryHeaders.Json.Fault
import LibraryHeaders.Shape
import LibraryHeaders.Visibility

/-!
# Problems and warnings

Why a header set cannot be resolved, and what is worth saying although it can.
-/

namespace LibraryHeaders

/-- Why a text is no file list. -/
inductive ListFault where
  | form (f : Json.Fault)
  | content (m : Mismatch)
  | unsupportedVersion (version : String)
  | emptyPath
  deriving DecidableEq, Repr

/-- The versions of file lists; they share one form. -/
def supportedVersions : List String := ["1", "2", "3"]

def ListFault.message : ListFault → String
  | .form f => f.message
  | .content m => m.message
  | .unsupportedVersion v =>
    "unsupported version '" ++ v ++ "' (expected one of " ++
      ", ".intercalate supportedVersions ++ ")"
  | .emptyPath => "header entry with empty path"

inductive Problem where
  /-- A directive adds a header that is not there. -/
  | missingFile (entry : String) (visibility : Visibility)
  /-- A directive excludes a file that is not there. -/
  | noSuchHeaderFile (entry : String) (visibility : Visibility)
  /-- No header of the class is the umbrella header that a directive names. -/
  | noSuchUmbrella (entry : String) (visibility : Visibility)
  | cannotOpen (path : String) (fault : FileFault)
  | invalidFileList (path : String) (fault : ListFault)
  deriving DecidableEq, Repr

def Problem.message : Problem → String
  | .missingFile entry v => "no such " ++ v.name ++ " header file: '" ++ entry ++ "'"
  | .noSuchHeaderFile entry v =>
    "no such " ++ v.name ++ " header file to exclude: '" ++ entry ++ "'"
  | .noSuchUmbrella entry v =>
    "no such " ++ v.name ++ " umbrella header file: '" ++ entry ++ "'"
  | .cannotOpen path fault => "cannot open file '" ++ path ++ "': " ++ fault.message
  | .invalidFileList path fault =>
    "invalid header file list '" ++ path ++ "': " ++ fault.message

/-- A glob among the exclusions hit no header. -/
structure Warning where
  pattern : String
  visibility : Visibility
  deriving DecidableEq, Repr

def Warning.message (w : Warning) : String :=
  w.visibility.name ++ " glob '" ++ w.pattern ++ "' did not match any header file"

end LibraryHeaders
