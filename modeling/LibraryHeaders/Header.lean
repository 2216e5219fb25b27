import LibraryHeaders.Visibility
import LibraryHeaders.Path

/-!
# Headers

One entry of the header sequence of a library. A header is never removed and its path and class
never change; what a resolution does is to raise flags and to move headers.
-/

namespace LibraryHeaders

structure Header where
  path : Path
  visibility : Visibility
  /-- The spelling under which a client includes the header, where it is known. -/
  includeName : Option String
  /-- Added by a directive rather than by a file list. -/
  isExtra : Bool
  isExcluded : Bool
  isUmbrella : Bool
  deriving DecidableEq, Repr

namespace Header

/-- A header from a file list. -/
def listed (visibility : Visibility) (path : Path) : Header :=
  ⟨path, visibility, none, false, false, false⟩

/-- A header added by a directive. -/
def extra (visibility : Visibility) (path : Path) (includeName : Option String) : Header :=
  ⟨path, visibility, includeName, true, false, false⟩

def exclude (h : Header) : Header := { h with isExcluded := true }

def designate (h : Header) : Header := { h with isUmbrella := true }

end Header

end LibraryHeaders
