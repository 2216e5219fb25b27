import LibraryHeaders.Text.Utf8
import LibraryHeaders.Text.Search

/-!
# Paths

A path is a sequence of bytes in which `/` separates names. It need not be UTF-8: what a path
shows as text is its lossy reading, while comparing and joining work on the bytes.
-/

namespace LibraryHeaders

/-- One entry name of a directory, or one part of a path between slashes. -/
abbrev Name := List UInt8

structure Path where
  bytes : List UInt8
  deriving DecidableEq, Repr, Inhabited

namespace Path

def slash : UInt8 := 0x2F

def dot : UInt8 := 0x2E

def ofChars (s : List Char) : Path := ⟨Utf8.encode s⟩

def ofString (s : String) : Path := ofChars s.toList

/-- The path as text, with U+FFFD for what is not UTF-8. -/
def chars (p : Path) : List Char := Utf8.decodeLossy p.bytes

def text (p : Path) : String := String.ofList p.chars

def isAbsolute (p : Path) : Bool := p.bytes.head? == some slash

/-- The parts between the slashes, empty ones included. -/
def parts (p : Path) : List Name := Text.split slash p.bytes

/-- `p` seen from `dir`: an absolute `p` stands for itself, and no slash is doubled. -/
def join (dir p : Path) : Path :=
  if p.isAbsolute then p
  else match dir.bytes.getLast? with
    | none => p
    | some b => if b = slash then ⟨dir.bytes ++ p.bytes⟩ else ⟨dir.bytes ++ slash :: p.bytes⟩

/-- The path of an entry below `dir`, reached through `names`. -/
def below (dir : Path) (names : List Name) : Path :=
  names.foldl (fun p n => p.join ⟨n⟩) dir

end Path

namespace Name

/-- What follows the last dot, unless that dot is the first byte. -/
def extension? (n : Name) : Option Name :=
  match (Text.split Path.dot n).reverse with
  | last :: (front :: more) => if more.isEmpty && front.isEmpty then none else some last
  | _ => none

def isHidden (n : Name) : Bool := n.head? == some Path.dot

/-- The extensions of header files. -/
def headerExtensions : List Name := ["h", "hh", "hpp", "hxx", "inc"].map fun s => Utf8.encode s.toList

def isHeader (n : Name) : Bool :=
  match n.extension? with
  | some e => headerExtensions.contains e
  | none => false

end Name

/-- Bytewise order of names. -/
def Name.le : Name → Name → Bool
  | [], _ => true
  | _ :: _, [] => false
  | a :: n, b :: m => a < b || (a == b && Name.le n m)

/-- Order of paths below one directory, name by name. -/
def Name.pathLe : List Name → List Name → Bool
  | [], _ => true
  | _ :: _, [] => false
  | a :: p, b :: q => if a = b then Name.pathLe p q else Name.le a b

namespace Path

/-- The last name of a path; a path that ends in `..` has none. -/
def fileName? (p : Path) : Option Name :=
  match (p.parts.filter fun n => n ≠ [] ∧ n ≠ [dot]).getLast? with
  | some n => if n = [dot, dot] then none else some n
  | none => none

def isHeader (p : Path) : Bool :=
  match p.fileName? with
  | some n => n.isHeader
  | none => false

end Path

end LibraryHeaders
