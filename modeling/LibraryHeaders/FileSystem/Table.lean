import LibraryHeaders.FileSystem.Basic

/-!
# File systems given by a table

Every answer is listed under the path as it is spelled.
-/

namespace LibraryHeaders

structure FileTable where
  current : Path
  /-- The regular files, with their identities where they are known. -/
  files : List (Path × Option Nat)
  dirs : List (Path × Except FileFault (List Path))
  texts : List (Path × Except FileFault String)

namespace FileTable

/-- The last entry under a key. -/
def lookup? {α : Type} (entries : List (Path × α)) (p : Path) : Option α :=
  (entries.reverse.find? (·.1 = p)).map (·.2)

def absolute (t : FileTable) (p : Path) : Path :=
  if p.isAbsolute then p else ⟨t.current.bytes ++ Path.slash :: p.bytes⟩

def fileSystem (t : FileTable) : FileSystem where
  isFile p := (lookup? t.files p).isSome
  isDir p := (lookup? t.dirs p).isSome
  absolute := t.absolute
  identity p := (lookup? t.files p).join.map FileId.number
  headersBelow p := (lookup? t.dirs p).getD (.error (.custom "no such table directory"))
  read p := (lookup? t.texts p).getD (.error (.custom "no such table text"))

end FileTable

end LibraryHeaders
