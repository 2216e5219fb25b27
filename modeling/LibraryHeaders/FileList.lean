import LibraryHeaders.Header
import LibraryHeaders.Json.Draft
import LibraryHeaders.Problem

/-!
# File lists

A file list is a JSON document that names headers with their classes:
`{"version": "3", "headers": [{"type": "public", "path": "/S/Foo.h"}]}`. Members that it does not
know are passed over. The list and its entries may also be written as JSON lists, member after
member. The first thing wrong in the order of the text is what is reported; only a document whose
form and content are right is asked for its version, and then for empty paths.
-/

namespace LibraryHeaders

structure FileList where
  version : String
  entries : List (Visibility × Path)
  deriving DecidableEq, Repr

namespace FileList

open Json

/-- The words for the classes of listed headers. -/
def classWords : List String := Visibility.concrete.map Visibility.name

def found (h : Head) (wanted : Wanted) : ListFault :=
  let mismatch (f : Found) := ListFault.content (.wrongType f wanted)
  match h with
  | .null => mismatch .null
  | .bool b => mismatch (.bool b)
  | .number (.ok (.integer n)) => mismatch (.integer n)
  | .number (.ok (.real d)) => mismatch (.real (d.render Number.style))
  | .number (.error f) => .form f
  | .string (.ok s) => mismatch (.string s)
  | .string (.error f) => .form f
  | .list => mismatch .list
  | .object => mismatch .table
  | .broken f => .form f

def formed {α : Type} (r : Except Fault α) : Except ListFault α := r.mapError .form

def readString (wanted : Wanted) : Draft → Except ListFault String
  | .string (.ok s) => .ok s
  | d => .error (found d.head wanted)

def readUnit : Draft → Except ListFault Unit
  | .null => .ok ()
  | d => .error (found d.head .unit)

def skip (d : Draft) : Except ListFault Unit :=
  match d.skipFault? with
  | some f => .error (.form f)
  | none => .ok ()

/-- The class with a name. -/
def readWord (word : String) : Except ListFault Visibility :=
  match Visibility.concrete.find? (·.name == word) with
  | some v => .ok v
  | none => .error (.content (.unknownWord word classWords))

/-- A class is its name, or an object with the name as its one key and null as the value. -/
def readClass : Draft → Except ListFault Visibility
  | .string s => do readWord (← formed s)
  | .brokenString f _ => .error (.form f)
  | .absent f => .error (.form f)
  | .object [] none => .error (.form .noValue)
  | .object [] (some c) => .error (.form c.wanted)
  | .object ((key, value) :: more) cut => do
    let v ← readWord (← formed key)
    readUnit value
    match more, cut with
    | [], none => return v
    | [], some .endOfText => .error (.form .endInObject)
    | _, _ => .error (.form .noValue)
  | _ => .error (.form .noValue)

def readPath (d : Draft) : Except ListFault Path := do
  return Path.ofString (← readString .path d)

/-- The end of a list behind its last wanted item. -/
def endOfList (more : List Draft) (cut : Option ListCut) : Except ListFault Unit :=
  match more, cut with
  | [], none => .ok ()
  | [], some c => .error (.form c.unwanted)
  | _ :: _, _ => .error (.form .trailingCharacters)

/-- A list that ends before an item that is wanted. -/
def shortList {α : Type} (length : Nat) (wanted : Wanted) (cut : Option ListCut) :
    Except ListFault α :=
  match cut with
  | some c => .error (.form c.wanted)
  | none => .error (.content (.tooShort length wanted 2))

/-- Reads two fields by their keys; other members are passed over. -/
def readFields {α β : Type} (first second : String) (readFirst : Draft → Except ListFault α)
    (readSecond : Draft → Except ListFault β) :
    Option α → Option β → List Draft.Member → Except ListFault (Option α × Option β)
  | a, b, [] => .ok (a, b)
  | a, b, (key, d) :: ms => do
    let k ← formed key
    if k = first then
      if a.isSome then .error (.content (.repeatedField first))
      else readFields first second readFirst readSecond (some (← readFirst d)) b ms
    else if k = second then
      if b.isSome then .error (.content (.repeatedField second))
      else readFields first second readFirst readSecond a (some (← readSecond d)) ms
    else do
      skip d
      readFields first second readFirst readSecond a b ms

/-- Reads a record of two fields, from an object or from a list. -/
def readPair {α β : Type} (wanted : Wanted) (first second : String)
    (readFirst : Draft → Except ListFault α) (readSecond : Draft → Except ListFault β) :
    Draft → Except ListFault (α × β)
  | .object members cut => do
    let (a, b) ← readFields first second readFirst readSecond none none members
    match cut, a, b with
    | some c, _, _ => .error (.form c.wanted)
    | none, none, _ => .error (.content (.missingField first))
    | none, some _, none => .error (.content (.missingField second))
    | none, some a, some b => return (a, b)
  | .list [] cut => shortList 0 wanted cut
  | .list [a] cut => do
    let _ ← readFirst a
    shortList 1 wanted cut
  | .list (a :: b :: more) cut => do
    let a ← readFirst a
    let b ← readSecond b
    endOfList more cut
    return (a, b)
  | d => .error (found d.head wanted)

def readEntry (d : Draft) : Except ListFault (Visibility × Path) :=
  readPair .fileListEntry "type" "path" readClass readPath d

def readEntries : Draft → Except ListFault (List (Visibility × Path))
  | .list items cut => do
    let entries ← items.mapM readEntry
    match cut with
    | some c => .error (.form c.wanted)
    | none => return entries
  | d => .error (found d.head .list)

/-- The file list in a text. -/
def ofText (s : List Char) : Except ListFault FileList := do
  let (d, more) := Draft.ofText s
  let (version, entries) ← readPair .fileList "version" "headers" (readString .string) readEntries d
  if more then .error (.form .trailingCharacters)
  else if !supportedVersions.contains version then .error (.unsupportedVersion version)
  else return ⟨version, entries⟩

/-- The headers of some entries, up to an empty path. -/
def headers : List (Visibility × Path) → List Header × Except ListFault Unit
  | [] => ([], .ok ())
  | (v, path) :: rest =>
    if path.bytes.isEmpty then ([], .error .emptyPath)
    else
      let (hs, outcome) := headers rest
      (.listed v path :: hs, outcome)

/-- Puts the headers of a text behind a sequence; on failure those before an empty path. -/
def append (text : String) (origin : Path) (hs : List Header) :
    List Header × Except Problem Unit :=
  let invalid (f : ListFault) := Problem.invalidFileList origin.text f
  match ofText text.toList with
  | .error f => (hs, .error (invalid f))
  | .ok list =>
    let (new, outcome) := headers list.entries
    (hs ++ new, outcome.mapError invalid)

/-- Puts the headers of some files behind a sequence. -/
def loadBehind (fs : FileSystem) (hs : List Header) : List Path → Except Problem (List Header)
  | [] => .ok hs
  | p :: ps =>
    match fs.read p with
    | .error fault => .error (.cannotOpen p.text fault)
    | .ok text =>
      match append text p hs with
      | (hs, .ok ()) => loadBehind fs hs ps
      | (_, .error e) => .error e

/-- The headers of some files, in order. -/
def load (fs : FileSystem) (files : List Path) : Except Problem (List Header) :=
  loadBehind fs [] files

end FileList

end LibraryHeaders
