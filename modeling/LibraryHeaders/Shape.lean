import LibraryHeaders.Text.Quoted

/-!
# Shapes of documents

A settings file or a file list prescribes what stands where. `Mismatch` is what can be wrong with
the content of a well-formed document.
-/

namespace LibraryHeaders

/-- What stands in a document. -/
inductive Found where
  | null
  | bool (b : Bool)
  | integer (n : Int)
  | real (text : String)
  | string (s : String)
  | list
  | table
  deriving DecidableEq, Repr

/-- What should stand there. -/
inductive Wanted where
  | string
  | path
  | bool
  | list
  | unit
  | classWord
  | fileList
  | fileListEntry
  | classLists
  | umbrellaPaths
  | config
  deriving DecidableEq, Repr

inductive Mismatch where
  | wrongType (found : Found) (wanted : Wanted)
  | notOneKey
  | unknownField (name : String) (known : List String)
  | unknownWord (word : String) (known : List String)
  | missingField (name : String)
  | repeatedField (name : String)
  | tooShort (length : Nat) (wanted : Wanted) (size : Nat)
  | tooLong (length : Nat)
  deriving DecidableEq, Repr

def Found.text : Found → String
  | .null => "null"
  | .bool b => "boolean `" ++ (if b then "true" else "false") ++ "`"
  | .integer n => "integer `" ++ toString n ++ "`"
  | .real s => "floating point `" ++ s ++ "`"
  | .string s => "string " ++ Text.quoted s
  | .list => "sequence"
  | .table => "map"

def Wanted.text : Wanted → String
  | .string => "a string"
  | .path => "path string"
  | .bool => "a boolean"
  | .list => "a sequence"
  | .unit => "unit"
  | .classWord => "string or map"
  | .fileList => "struct FileList"
  | .fileListEntry => "struct FileListEntry"
  | .classLists => "struct ClassLists"
  | .umbrellaPaths => "struct UmbrellaPaths"
  | .config => "struct ResolverConfig"

/-- The known words between backquotes. -/
def knownWords (known : List String) : String :=
  ", ".intercalate (known.map fun w => "`" ++ w ++ "`")

def Mismatch.message : Mismatch → String
  | .wrongType found wanted => "invalid type: " ++ found.text ++ ", expected " ++ wanted.text
  | .notOneKey => "invalid value: map, expected map with a single key"
  | .unknownField name known =>
    "unknown field `" ++ name ++ "`, expected one of " ++ knownWords known
  | .unknownWord word known =>
    "unknown variant `" ++ word ++ "`, expected one of " ++ knownWords known
  | .missingField name => "missing field `" ++ name ++ "`"
  | .repeatedField name => "duplicate field `" ++ name ++ "`"
  | .tooShort length wanted size =>
    "invalid length " ++ toString length ++ ", expected " ++ wanted.text ++ " with " ++
      toString size ++ " elements"
  | .tooLong length => "invalid length " ++ toString length ++ ", expected fewer elements in array"

end LibraryHeaders
