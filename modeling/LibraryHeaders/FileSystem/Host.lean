import LibraryHeaders.FileSystem.Tree

/-!
# Hosts

A tree of files as a program sees it that runs in one of its directories. Relative paths are seen
from a working directory, if one is given, and in the end from the directory of the program.

The header files below a directory are found by walking through it, links followed. Hidden entries
are passed over with all below them. A link to a directory that the walk is inside of is passed
over, and so is a link that leads nowhere; a link that cannot be followed otherwise ends the walk.
-/

namespace LibraryHeaders

structure Host where
  tree : Tree
  /-- The directory in which the program runs. -/
  current : Position
  workingDir : Option Path

namespace Host

def currentPath (h : Host) : Path := Position.path h.current

/-- The path seen from the working directory. -/
def anchor (h : Host) (p : Path) : Path :=
  match h.workingDir with
  | some dir => dir.join p
  | none => p

def absolute (h : Host) (p : Path) : Path :=
  let anchored := h.anchor p
  if anchored.isAbsolute then anchored else h.currentPath.join anchored

/-- What an anchored path leads to. -/
def lookup (h : Host) (p : Path) : Except FileFault (Position × Kind) := h.tree.resolve h.current p

/-- The names that lead to the header files in and below a directory. `fresh` holds the directories
that the walk is not inside of, and `names` has led to this one. -/
def walk (h : Host) (root : Path) (fresh : List Position) (dir : Position) (names : List Name) :
    Except FileFault (List (List Name)) := do
  let found ← (h.tree.children dir).attach.mapM fun ⟨(n, e), mem⟩ =>
    let here := names ++ [n]
    let file : List (List Name) := if !n.isHidden && n.isHeader then [here] else []
    match e, mem with
    | .file _, _ => .ok file
    | .dir, _mem =>
      if n.isHidden then .ok []
      else match h.lookup (root.below here) with
        | .ok _ => walk h root (fresh.erase (dir ++ [n])) (dir ++ [n]) here
        | .error fault => .error (.walking (root.below here) fault)
    | .link _, _ =>
      match h.lookup (root.below here) with
      | .ok (_, .file _) => .ok file
      | .ok (target, .dir) =>
        if target ∈ fresh ∧ !n.isHidden then walk h root (fresh.erase target) target here else .ok []
      | .error .noSuchFile => .ok []
      | .error fault => .error (.walking (root.below here) fault)
  return found.flatten
termination_by (fresh.length, h.tree.depth - dir.length)
decreasing_by
  · have deep := Tree.length_le_depth (Tree.mem_children _mem)
    simp only [List.length_append, List.length_cons, List.length_nil] at deep
    by_cases new : dir ++ [n] ∈ fresh
    · have := List.length_erase_of_mem new
      have := List.length_pos_of_mem new
      exact Prod.Lex.left _ _ (by omega)
    · rw [List.erase_of_not_mem new]
      simp only [List.length_append, List.length_cons, List.length_nil]
      exact Prod.Lex.right _ (by omega)
  · rename_i new
    have := List.length_erase_of_mem new.1
    have := List.length_pos_of_mem new.1
    exact Prod.Lex.left _ _ (by omega)

/-- The header files below a directory, in the order of their names; a file is answered itself. -/
def headersBelow (h : Host) (p : Path) : Except FileFault (List Path) :=
  let root := h.anchor p
  match h.lookup root with
  | .error fault => .error (.walking root fault)
  | .ok (_, .file _) => .ok (if root.isHeader then [root] else [])
  | .ok (dir, .dir) =>
    (h.walk root (h.tree.directories.erase dir) dir []).map fun found =>
      (found.mergeSort Name.pathLe).map root.below

def read (h : Host) (p : Path) : Except FileFault String :=
  match h.lookup (h.anchor p) with
  | .error fault => .error fault
  | .ok (_, .dir) => .error .isADirectory
  | .ok (_, .file i) =>
    match Utf8.decode? ((h.tree.contents[i]?).getD []) with
    | some s => .ok (String.ofList s)
    | none => .error .notUtf8

def fileSystem (h : Host) : FileSystem where
  isFile p := match h.lookup (h.anchor p) with
    | .ok (_, .file _) => true
    | _ => false
  isDir p := match h.lookup (h.anchor p) with
    | .ok (_, .dir) => true
    | _ => false
  absolute := h.absolute
  identity p := match h.lookup (h.anchor p) with
    | .ok (_, .file i) => some (.number i)
    | .ok (dir, .dir) => some (.directory dir)
    | _ => none
  headersBelow := h.headersBelow
  read := h.read

end Host

end LibraryHeaders
