import LibraryHeaders.FileSystem.Basic
import LibraryHeaders.Text.Blank
import LibraryHeaders.Toml.Document

/-!
# Settings

A settings file names a library and gives default directives for its headers. It says nothing that
this library does not know: an unknown key is a mismatch.
-/

namespace LibraryHeaders

structure Config where
  installName : Option String
  /-- The library is a plain dynamic library and belongs to no framework. -/
  plainDylib : Bool
  extra : ByClass (Option (List String))
  exclude : ByClass (Option (List String))
  umbrella : ByClass (Option String)
  deriving DecidableEq, Repr

namespace Config

open Datum

def empty : Config := ⟨none, false, .replicate none, .replicate none, .replicate none⟩

/-! ## Reading -/

/-- A field for each class that a header can carry, named for the class. -/
def classFields {α : Type} (item : Datum.Reader (Option α)) : RecordFields (ByClass (Option α)) :=
  Visibility.concrete.map fun v => (v.name, fun t d => (item d).map fun x => t.modify v fun _ => x)

/-- Lists for the classes. -/
def readLists (strict : Fields) : Datum.Reader (ByClass (Option (List String))) :=
  readRecord strict .classLists (classFields (readOption (readList readString))) (.replicate none)

/-- Paths for the classes. -/
def readPaths (strict : Fields) : Datum.Reader (ByClass (Option String)) :=
  readRecord strict .umbrellaPaths (classFields (readOption readString)) (.replicate none)

def fields (strict : Fields) : RecordFields Config :=
  [("install_name", fun c d => (readOption readString d).map fun x => { c with installName := x }),
    ("dynamic_library", fun c d => (readBool d).map fun x => { c with plainDylib := x }),
    ("extra", fun c d => (readLists strict d).map fun x => { c with extra := x }),
    ("exclude", fun c d => (readLists strict d).map fun x => { c with exclude := x }),
    ("umbrella", fun c d => (readPaths strict d).map fun x => { c with umbrella := x })]

def ofDatum (strict : Fields) : Datum.Reader Config := readRecord strict .config (fields strict) empty

def ofJson (v : Json.Value) : Except Mismatch Config := ofDatum .exact (Datum.ofJson v)

/-! ## Writing -/

/-- The members of a table for the classes; a class without an entry is left out. -/
def classMembers {α : Type} (item : α → Json.Value) (t : ByClass (Option α)) :
    List (String × Json.Value) :=
  t.present.map fun e => (e.1.name, item e.2)

def strings (ss : List String) : Json.Value := .list (ss.map .string)

def toJson (c : Config) : Json.Value :=
  .object ((c.installName.map fun n => ("install_name", .string n)).toList ++
    [("dynamic_library", .bool c.plainDylib),
      ("extra", .object (classMembers strings c.extra)),
      ("exclude", .object (classMembers strings c.exclude)),
      ("umbrella", .object (classMembers .string c.umbrella))])

/-! ## Validation -/

inductive Section where
  | extra
  | exclude
  deriving DecidableEq, Repr

def Section.name : Section → String
  | .extra => "extra"
  | .exclude => "exclude"

/-- An entry that is there but blank. -/
inductive Blank where
  | installName
  | umbrella (visibility : Visibility)
  | entry (part : Section) (visibility : Visibility)
  deriving DecidableEq, Repr

def Blank.message : Blank → String
  | .installName => "install_name must not be empty"
  | .umbrella v => v.name ++ " umbrella header must not be empty"
  | .entry part v => part.name ++ "." ++ v.name ++ " contains an empty path"

/-- The blank entries: the install name, the umbrella headers, the extras and the exclusions, class
by class. -/
def blanks (c : Config) : List Blank :=
  ((c.installName.filter isBlank).map fun _ => Blank.installName).toList ++
    (c.umbrella.present.filter (isBlank ·.2)).map (fun e => .umbrella e.1) ++
    (c.extra.present.filter (·.2.any isBlank)).map (fun e => .entry .extra e.1) ++
    (c.exclude.present.filter (·.2.any isBlank)).map (fun e => .entry .exclude e.1)

/-- The first blank entry, if there is one. -/
def blank? (c : Config) : Option Blank := c.blanks.head?

/-! ## Files -/

/-- Why a file gives no settings. -/
inductive Fault where
  | unreadable (fault : FileFault)
  | malformed
  | mismatch (m : Mismatch)
  | blank (b : Blank)
  deriving DecidableEq, Repr

/-- What was being done when the fault arose. -/
def Fault.summary (path : Path) : Fault → String
  | .unreadable _ => "Failed to read config file: " ++ path.text
  | .malformed => "Failed to parse config file: " ++ path.text
  | .mismatch _ => "Failed to parse config file: " ++ path.text
  | .blank _ => "Invalid config file: " ++ path.text

/-- The settings in a TOML text. -/
def ofToml (text : String) : Except Fault Config :=
  match Toml.read text.toList with
  | none => .error .malformed
  | some d =>
    match ofDatum .atLeast d with
    | .error m => .error (.mismatch m)
    | .ok c =>
      match c.blank? with
      | some b => .error (.blank b)
      | none => .ok c

def load (fs : FileSystem) (path : Path) : Except Fault Config :=
  match fs.read path with
  | .error fault => .error (.unreadable fault)
  | .ok text => ofToml text

end Config

end LibraryHeaders
