import LibraryHeaders.FileSystem.Host
import LibraryHeaders.FileSystem.Table

/-!
# The disk

Reads files, and records as a tree what the disk holds in the places that a run asks about. A link
is recorded with the place that it leads to in the end, or with a path that is refused as the link
is. The system tells neither the numbers of files nor names that are no UTF-8 text, so both are
worked out from what it does tell.
-/

namespace LibraryHeaders.Disk

def spell (p : Position) : String := (Position.path p).text

/-- The position that an absolute path without links spells. -/
def position (path : String) : Position := (Path.ofString path).parts.filter (! ·.isEmpty)

def entry (dir : Position) (n : Name) : IO.FS.DirEntry := ⟨spell dir, Path.text ⟨n⟩⟩

/-- The number under which the system knows a failure; some are told as negative words. -/
def number (code : UInt32) : Nat := if code < 0x80000000 then code.toNat else (0 - code).toNat

/-- The words of the system for a failure, with its number. -/
def fault (code : UInt32) (words : String) : FileFault :=
  match number code with
  | 2 => .noSuchFile
  | 20 => .notADirectory
  | 21 => .isADirectory
  | 36 => .nameTooLong
  | 40 => .tooManyLinks
  | n => .custom (words ++ " (os error " ++ toString n ++ ")")

def faultOf : IO.Error → FileFault
  | .noFileOrDirectory _ code words => fault code words
  | .invalidArgument _ code words => fault code words
  | .permissionDenied _ code words => fault code words
  | .inappropriateType _ code words => fault code words
  | .noSuchThing _ code words => fault code words
  | e => .custom (toString e)

def read (p : Path) : IO (Except FileFault String) := do
  if p.bytes.contains 0 then return .error .nulInName
  try
    match Utf8.decode? (← IO.FS.readBinFile p.text).toList with
    | some s => return .ok (String.ofList s)
    | none => return .error .notUtf8
  catch e => return .error (faultOf e)

/-! ## Recording a tree -/

structure Survey where
  tree : Tree
  /-- The files that have more than one name, by what the disk tells of them, with their numbers. -/
  shared : List (IO.FS.Metadata × Nat)
  /-- The directories that are recorded with all below them. -/
  searched : List Position

abbrev Recorder := StateT Survey IO

def record (p : Position) (e : Entry) : Recorder Unit :=
  modify fun s => if (s.tree.at? p).isSome then s else { s with tree := s.tree.add p e }

/-- What the disk tells of an entry, links not followed. -/
def status? (dir : Position) (n : Name) : IO (Option IO.FS.Metadata) := do
  try return some (← (entry dir n).path.symlinkMetadata)
  catch _ => return none

/-- Whether two entries tell the same. For two files with several names each, this takes them as
one: they agree in their size, their number of names and both of their times. -/
def tellsSame (a b : IO.FS.Metadata) : Bool :=
  a.byteSize = b.byteSize && a.numLinks = b.numLinks && a.modified == b.modified &&
    a.accessed == b.accessed

/-- The number of a plain file: a new one, unless another of its names is recorded. -/
def fileNumber (status : IO.FS.Metadata) : Recorder Nat := do
  let s ← get
  let fresh := s.tree.entries.length
  if status.numLinks < 2 then return fresh
  match s.shared.find? fun known => tellsSame known.1 status with
  | some known => return known.2
  | none =>
    set { s with shared := (status, fresh) :: s.shared }
    return fresh

/-- The position of a file that the disk cannot hold. -/
def blockade : Name := [0, 0]

/-- A path that is refused with a fault, seen from an entry with some name. -/
def refusing (n : Name) : FileFault → Path
  | .tooManyLinks => ⟨n⟩
  | .notADirectory => ⟨Path.slash :: blockade ++ [Path.slash, Path.dot]⟩
  | .nameTooLong => ⟨List.replicate (Tree.longestName + 1) 0⟩
  | _ => ⟨[0]⟩

/-- The place that a link leads to in the end, or why it leads nowhere. -/
def target (dir : Position) (n : Name) : IO (Except FileFault Path) := do
  let link := (entry dir n).path
  try return .ok (Path.ofString (← IO.FS.realPath link).toString)
  catch _ =>
    try
      discard link.metadata
      return .error .noSuchFile
    catch e => return .error (faultOf e)

/-- Records the entries that names lead through, and tells the directory that they come to. -/
partial def follow (dir : Position) : List Name → Recorder (Option Position)
  | [] => return some dir
  | n :: rest => do
    if n.isEmpty || n = [Path.dot] then follow dir rest
    else if n = [Path.dot, Path.dot] then follow dir.dropLast rest
    else
      let some status ← status? dir n | return none
      match status.type with
      | .dir =>
        record (dir ++ [n]) .dir
        follow (dir ++ [n]) rest
      | .file =>
        record (dir ++ [n]) (.file (← fileNumber status))
        return none
      | .symlink =>
        match ← target dir n with
        | .ok path =>
          record (dir ++ [n]) (.link path)
          follow [] (path.parts ++ rest)
        | .error fault =>
          record (dir ++ [n]) (.link (refusing n fault))
          return none
      | .other => return none

def names (dir : Position) : IO (List Name) := do
  try
    let entries ← (entry dir [Path.dot]).path.readDir
    return entries.toList.map fun e => (Path.ofString e.fileName).bytes
  catch _ => return []

/-- The bytes of a name that is no UTF-8 text, with one such byte for each place that was lost when
the name was told as text. Such an entry cannot be looked at, and it is taken as a plain file. -/
def untold? (dir : Position) (n : Name) : IO (Option Name) := do
  let told := Path.text ⟨n⟩
  if !told.contains '\uFFFD' || (← status? dir n).isSome then return none
  return some (told.toList.flatMap fun c => if c = '\uFFFD' then [0xFF] else String.utf8EncodeChar c)

/-- Records what stands below a directory. Nothing is recorded below a hidden one. -/
partial def search (dir : Position) : Recorder Unit := do
  if (← get).searched.contains dir then return
  modify fun s => { s with searched := dir :: s.searched }
  for n in ← names dir do
    if let some told ← untold? dir n then
      record (dir ++ [told]) (.file (← get).tree.entries.length)
    else if let some below ← follow dir [n] then
      if !n.isHidden then search below

def start (current : Position) (p : Path) : Position := if p.isAbsolute then [] else current

/-- Records what stands at some paths, and also below others. -/
def survey (current : Position) (deep flat : List Path) : IO Tree := do
  let record : Recorder Unit := do
    record [blockade] (.file 0)
    discard (follow [] current)
    for p in flat do
      discard (follow (start current p) p.parts)
    for p in deep do
      if let some dir ← follow (start current p) p.parts then search dir
  return (← record.run ⟨.empty, [], []⟩).2.tree

/-- The files of a host, with the texts that were read. -/
def fileSystem (current : Position) (tree : Tree) (texts : List (Path × Except FileFault String)) :
    FileSystem :=
  { (Host.mk tree current none).fileSystem with
    read := fun p => (FileTable.lookup? texts p).getD (.error .noSuchFile) }

end LibraryHeaders.Disk
