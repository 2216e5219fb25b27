import LibraryHeaders.Text.Search

/-!
# Install names

The install name of a library tells the framework it belongs to:
`/System/Library/Frameworks/Foo.framework/Versions/A/Foo` belongs to `Foo`. The framework stands on
the first line that has one; it is the text between the last `.framework/` of that line and the last
slash that leaves room for a name before it.
-/

namespace LibraryHeaders.InstallName

def bundle : List Char := ".framework/".toList

/-- The framework of one line. The slash before the name is not the first character. -/
def ofLine? (line : List Char) : Option (List Char) := do
  let front ← Text.beforeLast? bundle line
  let last ← front.getLast?
  let dir ← Text.beforeLast? ['/'] front.dropLast
  if dir.isEmpty then none
  else return front.dropLast.drop (dir.length + 1) ++ [last]

/-- The framework that a library belongs to; a plain dynamic library belongs to none. -/
def framework? (installName : String) (plainDylib : Bool) : Option String :=
  if plainDylib then none
  else ((Text.split '\n' installName.toList).findSome? ofLine?).map String.ofList

end LibraryHeaders.InstallName
