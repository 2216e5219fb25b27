import LibraryHeaders.Header
import LibraryHeaders.Problem
import LibraryHeaders.Text.Automaton

/-!
# Umbrella headers

Every class may have one umbrella header: the first header of the class that satisfies the rule of
the class. The rule comes from a path that a directive names, or from the name of the framework:
`Foo.h` is the public umbrella header of `Foo`, `FooPrivate.h` or `Foo_Private.h` the private one.
A rule whose automaton would be too large finds no header. The umbrella header is flagged and changes places with the first header that is none, if that one
stands before it; so the umbrella headers gather at the front in the order of their classes.
-/

namespace LibraryHeaders.Umbrella

/-- What makes a header of a class its umbrella header. -/
inductive Rule where
  /-- The path contains a text. -/
  | contains (text : List Char)
  /-- The path ends with a text. -/
  | endsWith (text : List Char)
  /-- The path ends with two texts, perhaps with an underscore between them. -/
  | endsWithPair (front back : List Char)
  deriving DecidableEq, Repr

namespace Rule

def accepts (path : List Char) : Rule → Bool
  | contains text => Text.occursIn text path
  | endsWith text => Text.endsWith path text
  | endsWithPair front back =>
    Text.endsWith path (front ++ back) || Text.endsWith path (front ++ '_' :: back)

/-- The size of the automaton that looks for a rule in the bytes of a path. Three states and four
branches let it begin anywhere, and three states mark the ends of what it finds and accept. The end
of the path is one more state, and an underscore that may be there three, with two branches. -/
def size : Rule → Nat
  | contains text => Automaton.size (6 + Automaton.textStates text) 4
  | endsWith text => Automaton.size (7 + Automaton.textStates text) 4
  | endsWithPair front back =>
    Automaton.size (10 + Automaton.textStates front + Automaton.textStates back) 6

/-- The rule, unless it is too large. -/
def compiled? (rule : Rule) : Option Rule :=
  if Automaton.maxSize < rule.size then none else some rule

end Rule

/-- The rule of a class by convention; project headers have none. -/
def conventional? (framework : String) : Visibility → Option Rule
  | .pub => some (.endsWith ("/" ++ framework ++ ".h").toList)
  | .priv => some (.endsWithPair ("/" ++ framework).toList "Private.h".toList)
  | .proj => none
  | .unspecified => none

def qualifies (v : Visibility) (rule : Rule) (h : Header) : Bool :=
  h.visibility == v && rule.accepts h.path.chars

/-- Exchanges the headers at two places. -/
def swap (hs : List Header) (i j : Nat) : List Header :=
  match hs[i]?, hs[j]? with
  | some a, some b => (hs.set i b).set j a
  | _, _ => hs

/-- Flags the header at a place and moves it behind the umbrella headers at the front; with the
place where it ends up. -/
def promote (hs : List Header) (found : Nat) : List Header × Nat :=
  let flagged := hs.modify found Header.designate
  match flagged.findIdx? (fun h => !h.isUmbrella) with
  | some front => if front < found then (swap flagged front found, front) else (flagged, found)
  | none => (flagged, found)

/-- Designates the first header of a class that satisfies a rule, if there is a rule. -/
def designate (v : Visibility) (rule : Option Rule) (hs : List Header) :
    List Header × Option Nat :=
  match rule.bind fun rule => hs.findIdx? (qualifies v rule) with
  | some found =>
    let (hs, index) := promote hs found
    (hs, some index)
  | none => (hs, none)

/-- Designates the umbrella header of one class. A named umbrella header has to be there; one that
convention expects may be missing. An empty name counts as none. A rule that is too large finds
nothing. -/
def resolveClass (framework : Option String) (v : Visibility) (named : Option String)
    (hs : List Header) : List Header × Except Problem (Option Nat) :=
  match named.filter (· ≠ "") with
  | some entry =>
    match designate v (Rule.contains entry.toList).compiled? hs with
    | (hs, some index) => (hs, .ok (some index))
    | (hs, none) => (hs, .error (.noSuchUmbrella entry v))
  | none =>
    let rule := (framework.filter (· ≠ "")).bind (conventional? · v)
    let (hs, index) := designate v (rule.bind Rule.compiled?) hs
    (hs, .ok index)

/-- Designates the umbrella headers of some classes in turn. -/
def resolveClasses (framework : Option String) (named : Visibility → Option String)
    (hs : List Header) : List Visibility → List Header × Except Problem (List (Visibility × Nat))
  | [] => (hs, .ok [])
  | v :: vs =>
    match resolveClass framework v (named v) hs with
    | (hs, .error e) => (hs, .error e)
    | (hs, .ok index) =>
      let (hs, rest) := resolveClasses framework named hs vs
      (hs, rest.map fun ds => (index.map (v, ·)).toList ++ ds)

/-- Designates the umbrella headers of all classes, and tells their places. -/
def resolve (framework : Option String) (named : Visibility → Option String)
    (hs : List Header) : List Header × Except Problem (List (Visibility × Nat)) :=
  resolveClasses framework named hs Visibility.concrete

end LibraryHeaders.Umbrella
