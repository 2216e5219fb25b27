import LibraryHeaders.Problem

/-!
# Directives

For every class a list of entries, each a path or a glob. A list is a default, or it is given
explicitly and then replaces the default of its class, even if it is empty.
-/

namespace LibraryHeaders

/-- One entry with the class that it speaks about. -/
structure Directive where
  pattern : String
  visibility : Visibility
  deriving DecidableEq, Repr

structure Directives where
  defaults : Visibility → Option (List String)
  explicit : Visibility → Option (List String)

namespace Directives

def empty : Directives := ⟨fun _ => none, fun _ => none⟩

/-- Puts a value in the place of one class. -/
def put {α : Type} (f : Visibility → Option α) (v : Visibility) (a : α) : Visibility → Option α :=
  fun w => if w = v then some a else f w

/-- Gives the default list of a class. -/
def seed (d : Directives) (v : Visibility) (entries : List String) : Directives :=
  { d with defaults := put d.defaults v entries }

/-- Gives the explicit list of a class. -/
def set (d : Directives) (v : Visibility) (entries : List String) : Directives :=
  { d with explicit := put d.explicit v entries }

def isExplicit (d : Directives) (v : Visibility) : Bool := (d.explicit v).isSome

/-- The list that counts for a class. -/
def effective (d : Directives) (v : Visibility) : List String :=
  ((d.explicit v).or (d.defaults v)).getD []

/-- The classes that have a list, in processing order. -/
def classes (d : Directives) : List Visibility :=
  Visibility.all.filter fun v => (d.explicit v).isSome || (d.defaults v).isSome

/-- All directives that count, class by class. -/
def list (d : Directives) : List Directive :=
  d.classes.flatMap fun v => (d.effective v).map (⟨·, v⟩)

/-- A directory stands for the header files below it, anything else for itself. -/
def expandEntry (fs : FileSystem) (entry : String) : Except Problem (List String) :=
  let path := Path.ofString entry
  if fs.isDir path then
    match fs.headersBelow path with
    | .ok headers => .ok (headers.map Path.text)
    | .error fault => .error (.cannotOpen entry fault)
  else .ok [entry]

def expandEntries (fs : FileSystem) : List String → Except Problem (List String)
  | [] => .ok []
  | entry :: entries => do
    let first ← expandEntry fs entry
    let rest ← expandEntries fs entries
    return first ++ rest

/-- Expands the lists of some classes in turn. -/
def expandClasses (fs : FileSystem) (d : Directives) (done : Directives) :
    List Visibility → Except Problem Directives
  | [] => .ok done
  | v :: vs => do
    let entries ← expandEntries fs (d.effective v)
    expandClasses fs d (done.set v entries) vs

/-- The directives with every directory expanded; their lists are all explicit. -/
def expand (fs : FileSystem) (d : Directives) : Except Problem Directives :=
  expandClasses fs d empty d.classes

end Directives

end LibraryHeaders
