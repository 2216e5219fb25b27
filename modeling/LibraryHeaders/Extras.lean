import LibraryHeaders.Directives
import LibraryHeaders.Header
import LibraryHeaders.IncludeName

/-!
# Extra headers

Headers that directives add behind those of the file lists: public, private, then project. Nothing
is deduplicated. A missing file ends the addition, and what was added before it stays.
-/

namespace LibraryHeaders.Extras

/-- The entries that add headers, with their classes; a list without a class adds none. -/
def entries (d : Directives) : List (Visibility × String) :=
  Visibility.concrete.flatMap fun v => (d.effective v).map (v, ·)

/-- The header that an entry adds. -/
def header (fs : FileSystem) (namer : IncludeNamer) (v : Visibility) (entry : String) : Header :=
  let path := fs.absolute (Path.ofString entry)
  .extra v path (namer path)

/-- Adds the headers of some entries in turn. -/
def appendEntries (fs : FileSystem) (namer : IncludeNamer) (hs : List Header) :
    List (Visibility × String) → List Header × Except Problem Unit
  | [] => (hs, .ok ())
  | (v, entry) :: rest =>
    if fs.isFile (Path.ofString entry) then
      appendEntries fs namer (hs ++ [header fs namer v entry]) rest
    else (hs, .error (.missingFile entry v))

/-- The sequence with the extra headers behind it; on failure it ends before the missing one. -/
def append (fs : FileSystem) (namer : IncludeNamer) (d : Directives) (hs : List Header) :
    List Header × Except Problem Unit :=
  appendEntries fs namer hs (entries d)

/-- The sequence with all extra headers, or none. -/
def build (fs : FileSystem) (namer : IncludeNamer) (d : Directives) (hs : List Header) :
    Except Problem (List Header) :=
  let (built, outcome) := append fs namer d hs
  outcome.map fun _ => built

end LibraryHeaders.Extras
