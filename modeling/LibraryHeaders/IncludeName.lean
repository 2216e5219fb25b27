import LibraryHeaders.Path

/-!
# Include names

The spelling under which clients include a header, read off its place. Below a directory `include`
it is the rest of the path: `/usr/include/foo/bar.h` is `foo/bar.h`. Inside a framework it is the
framework's name and the rest: `/S/Foo.framework/Headers/Bar.h` is `Foo/Bar.h`.
-/

namespace LibraryHeaders

/-- A rule that names headers by their paths. -/
abbrev IncludeNamer := Path → Option String

namespace IncludeName

def includeDir : List Char := "/include/".toList

/-- The name and the rest behind it, where a text reads `Name.framework/`, the name being one
nonempty component. -/
def framework? (s : List Char) : Option (List Char × List Char) :=
  let component := s.takeWhile (· != '/')
  let name := component.take (component.length - ".framework".length)
  if name ≠ [] ∧ component = name ++ ".framework".toList then
    (Text.after? ['/'] (s.drop component.length)).map (name, ·)
  else none

/-- What follows a header directory of a framework, if it is not empty and on one line. -/
def inHeaders? (s : List Char) : Option (List Char) :=
  let rest := match Text.after? "Headers/".toList s with
    | some rest => some rest
    | none => Text.after? "PrivateHeaders/".toList s
  rest.filter fun r => !r.isEmpty && !r.contains '\n'

/-- The include name of a text that begins behind a slash, at this very place. -/
def here? (s : List Char) : Option (List Char) := do
  let (name, rest) ← framework? s
  let file ← inHeaders? rest
  return name ++ '/' :: file

/-- The include name from the first framework layout in a text. -/
def inFramework? : List Char → Option (List Char)
  | [] => none
  | c :: s =>
    match if c = '/' then here? s else none with
    | some name => some name
    | none => inFramework? s

def ofChars? (s : List Char) : Option (List Char) :=
  match Text.afterFirst? includeDir s with
  | some rest => some rest
  | none => inFramework? s

/-- The conventional rule. -/
def conventional : IncludeNamer := fun p => (ofChars? p.chars).map String.ofList

end IncludeName

end LibraryHeaders
