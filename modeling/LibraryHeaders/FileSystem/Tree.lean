import LibraryHeaders.FileSystem.Basic

/-!
# Trees of files

A tree lists what stands at each position, a position being the names that lead to it from the root
without a detour through links. Two files with one number are one file under two names; a directory
has one position only. A path is resolved name by name as POSIX says: a link is followed wherever it
stands, and following more than forty of them for one path is refused.
-/

namespace LibraryHeaders

abbrev Position := List Name

/-- The absolute path of a position. -/
def Position.path (p : Position) : Path :=
  if p = [] then ⟨[Path.slash]⟩ else ⟨p.flatMap fun n => Path.slash :: n⟩

inductive Entry where
  | dir
  | file (number : Nat)
  | link (target : Path)
  deriving DecidableEq, Repr

/-- What a path leads to in the end. -/
inductive Kind where
  | dir
  | file (number : Nat)
  deriving DecidableEq, Repr

structure Tree where
  entries : List (Position × Entry)
  /-- The bytes of the files, by their numbers. -/
  contents : List (List UInt8)

namespace Tree

def empty : Tree := ⟨[], []⟩

/-- What stands at a position. The root is a directory. -/
def at? (t : Tree) (p : Position) : Option Entry :=
  if p = [] then some .dir else (t.entries.find? (·.1 = p)).map (·.2)

/-- The entries of a directory. -/
def children (t : Tree) (p : Position) : List (Name × Entry) :=
  t.entries.filterMap fun e =>
    match e.1.getLast? with
    | some n => if e.1 = p ++ [n] then some (n, e.2) else none
    | none => none

/-- The positions of all directories. -/
def directories (t : Tree) : List Position :=
  [] :: t.entries.filterMap fun e => if e.2 = .dir then some e.1 else none

/-- The length of the longest position. -/
def depth (t : Tree) : Nat := t.entries.foldr (fun e n => max e.1.length n) 0

theorem mem_children {t : Tree} {p : Position} {n : Name} {e : Entry}
    (h : (n, e) ∈ t.children p) : (p ++ [n], e) ∈ t.entries := by
  obtain ⟨⟨q, e'⟩, mem, eq⟩ := List.mem_filterMap.1 h
  split at eq
  · split at eq
    · next hq =>
      simp only [Option.some.injEq, Prod.mk.injEq] at eq
      obtain ⟨rfl, rfl⟩ := eq
      have hq' : q = p ++ [_] := hq
      exact hq' ▸ mem
    · simp at eq
  · simp at eq

theorem length_le_depth {t : Tree} {p : Position} {e : Entry} (h : (p, e) ∈ t.entries) :
    p.length ≤ t.depth := by
  unfold depth
  generalize t.entries = es at h
  induction es with
  | nil => simp at h
  | cons x xs ih =>
    simp only [List.foldr_cons]
    rcases List.mem_cons.1 h with rfl | h
    · exact Nat.le_max_left _ _
    · exact Nat.le_trans (ih h) (Nat.le_max_right _ _)

/-! ## Resolving paths -/

/-- The most bytes of a name. -/
def longestName : Nat := 255

/-- The most bytes of a path. -/
def longestPath : Nat := 4095

/-- The most links that are followed for one path. -/
def mostLinks : Nat := 40

/-- Where a walk along names comes to. -/
inductive Stop where
  | arrived (p : Position) (k : Kind)
  | refused (fault : FileFault)
  /-- At a link that stands in a directory, with names left behind it. -/
  | met (dir : Position) (target : Path) (rest : List Name)

/-- Walks along names up to the first link. -/
def advance (t : Tree) : Position → Kind → List Name → Stop
  | p, k, [] => .arrived p k
  | p, k, n :: rest =>
    match k with
    | .file _ => .refused .notADirectory
    | .dir =>
      if n = [] ∨ n = [Path.dot] then advance t p .dir rest
      else if n = [Path.dot, Path.dot] then advance t p.dropLast .dir rest
      else if longestName < n.length then .refused .nameTooLong
      else match t.at? (p ++ [n]) with
        | none => .refused .noSuchFile
        | some .dir => advance t (p ++ [n]) .dir rest
        | some (.file i) => advance t (p ++ [n]) (.file i) rest
        | some (.link target) => .met p target rest

/-- Walks along names and follows links, at most as many as are left. -/
def follow (t : Tree) (links : Nat) (p : Position) (names : List Name) :
    Except FileFault (Position × Kind) :=
  match advance t p .dir names with
  | .arrived q k => .ok (q, k)
  | .refused fault => .error fault
  | .met dir target rest =>
    match links with
    | 0 => .error .tooManyLinks
    | links + 1 => follow t links (if target.isAbsolute then [] else dir) (target.parts ++ rest)

/-- What a path leads to from a directory. -/
def resolve (t : Tree) (current : Position) (path : Path) : Except FileFault (Position × Kind) :=
  if path.bytes.contains 0 then .error .nulInName
  else if path.bytes = [] then .error .noSuchFile
  else if longestPath < path.bytes.length then .error .nameTooLong
  else t.follow mostLinks (if path.isAbsolute then [] else current) path.parts

/-! ## Making trees -/

def add (t : Tree) (p : Position) (e : Entry) : Tree := { t with entries := t.entries ++ [(p, e)] }

def isUsable (n : Name) : Bool :=
  n ≠ [] && n ≠ [Path.dot] && n ≠ [Path.dot, Path.dot] && n.length ≤ longestName && !n.contains 0

/-- Makes the directories along names that are missing, and tells where they lead. -/
def makeDirs (t : Tree) (p : Position) : List Name → Option (Tree × Position)
  | [] => some (t, p)
  | n :: rest =>
    match t.follow mostLinks p [n] with
    | .ok (q, .dir) => makeDirs t q rest
    | .ok (_, .file _) => none
    | .error .noSuchFile =>
      if isUsable n ∧ (t.at? (p ++ [n])).isNone then makeDirs (t.add (p ++ [n]) .dir) (p ++ [n]) rest
      else none
    | .error _ => none

/-- The directories before the last name of a path are made, and the last name is still free. -/
def makeRoom (t : Tree) (p : Position) (path : Path) : Option (Tree × Position) := do
  let name ← path.parts.getLast?
  let (t, q) ← t.makeDirs p path.parts.dropLast
  if isUsable name ∧ (t.at? (q ++ [name])).isNone then return (t, q ++ [name]) else none

def addDir (t : Tree) (p : Position) (path : Path) : Option Tree :=
  (t.makeDirs p path.parts).map (·.1)

/-- The position of the file that is made when names lead to none: links at the end are followed, at
most as many as are left. -/
def vacancy? (t : Tree) (links : Nat) (p : Position) (names : List Name) : Option Position := do
  let name ← names.getLast?
  match t.follow mostLinks p names.dropLast with
  | .ok (q, .dir) =>
    match t.at? (q ++ [name]) with
    | none => if isUsable name then some (q ++ [name]) else none
    | some (.link target) =>
      match links with
      | 0 => none
      | links + 1 => vacancy? t links (if target.isAbsolute then [] else q) target.parts
    | some _ => none
  | _ => none

/-- Writes a file; one that is there already gets new bytes. -/
def addFile (t : Tree) (p : Position) (path : Path) (bytes : List UInt8) : Option Tree := do
  let (t, _) ← t.makeDirs p path.parts.dropLast
  match t.follow mostLinks p path.parts with
  | .ok (_, .file i) => return { t with contents := t.contents.set i bytes }
  | _ =>
    let q ← t.vacancy? mostLinks p path.parts
    return { t.add q (.file t.contents.length) with contents := t.contents ++ [bytes] }

def addLink (t : Tree) (p : Position) (path target : Path) : Option Tree := do
  let (t, q) ← t.makeRoom p path
  return t.add q (.link target)

/-- A further name for a file. A further name for a link is a link to the same target. -/
def addName (t : Tree) (p : Position) (path existing : Path) : Option Tree := do
  let (t, q) ← t.makeRoom p path
  let name ← existing.parts.getLast?
  match t.follow mostLinks (if existing.isAbsolute then [] else p) existing.parts.dropLast with
  | .ok (dir, .dir) =>
    match t.at? (dir ++ [name]) with
    | some (.file i) => return t.add q (.file i)
    | some (.link target) => return t.add q (.link target)
    | _ => none
  | _ => none

end Tree

end LibraryHeaders
