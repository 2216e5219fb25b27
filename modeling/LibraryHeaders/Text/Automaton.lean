import LibraryHeaders.Text.Utf8

/-!
# Sizes of automata

A rule for paths is compiled into an automaton that reads the bytes of a path. A rule whose
automaton would take more than ten mebibytes is refused. What an automaton accepts is said by the
rules themselves; here is only what it takes.
-/

namespace LibraryHeaders.Automaton

/-- The most bytes that an automaton may take. -/
def maxSize : Nat := 10485760

/-- The size of an automaton with some states and some branches between them. -/
def size (states branches : Nat) : Nat := 32 * states + 4 * branches

/-- The states that read a text, one for each byte. -/
def textStates (s : List Char) : Nat := (Utf8.encode s).length

theorem textStates_append (s t : List Char) :
    textStates (s ++ t) = textStates s + textStates t := by
  rw [textStates, Utf8.encode, List.flatMap_append, List.length_append]
  rfl

end LibraryHeaders.Automaton
