import LibraryHeaders.Header
import LibraryHeaders.Text.Automaton

/-!
# Globs

A glob is a pattern for whole paths. A `*` stands for any text within one path component, a `?` for
one character other than a line feed, and a component that is written `**` for any number of whole
components: together with the slash behind it for any number of components each followed by a
slash, and at the end of the pattern for any text without a line feed. All else stands for itself.

A pattern is read into pieces, and a path is matched by working out, piece after piece from the
end of the pattern, which ends of the path the pieces match. A pattern whose automaton would be
larger than ten mebibytes is refused.
-/

namespace LibraryHeaders

namespace Glob

inductive Piece where
  | literal (c : Char)
  | anyChar
  | anyRun
  | anyFolders
  | anyTail
  deriving DecidableEq, Repr

def Piece.ofChar (c : Char) : Piece := if c = '?' then .anyChar else .literal c

/-- The pieces of a pattern. `stars` counts the stars that stand directly before the text, and
`boundary` tells whether a component begins there, or before those stars. -/
def piecesFrom : (boundary : Bool) → (stars : Nat) → List Char → List Piece
  | boundary, stars, [] =>
    if stars = 0 then []
    else if boundary && 2 ≤ stars then [.anyTail]
    else [.anyRun]
  | boundary, stars, c :: s =>
    if c = '*' then piecesFrom boundary (stars + 1) s
    else if stars = 0 then Piece.ofChar c :: piecesFrom (c = '/') 0 s
    else if boundary && 2 ≤ stars && c = '/' then .anyFolders :: piecesFrom true 0 s
    else .anyRun :: Piece.ofChar c :: piecesFrom (c = '/') 0 s

def parse (pattern : List Char) : List Piece := piecesFrom true 0 pattern

/-- For each end of a text, longest first, whether a span of characters that satisfy `ok` leads
from it to an end that `after` marks. -/
def spanRow (ok : Char → Bool) : List Char → List Bool → List Bool
  | c :: s, b :: bs =>
    let row := spanRow ok s bs
    (b || ok c && row.headD false) :: row
  | _, bs => bs

/-- For each end of a text, whether whole components lead from it to an end that `after` marks;
with the answer for the end behind the next slash. -/
def foldersRow : List Char → List Bool → List Bool × Bool
  | c :: s, b :: bs =>
    let (row, behind) := foldersRow s bs
    let behind := if c = '/' then row.headD false else behind
    ((b || behind) :: row, behind)
  | _, bs => (bs, false)

/-- For each end of a text, whether one character that satisfies `ok` leads from it to an end that
`after` marks. -/
def charRow (ok : Char → Bool) : List Char → List Bool → List Bool
  | c :: s, _ :: b :: bs => (ok c && b) :: charRow ok s (b :: bs)
  | _, _ => [false]

/-- The ends of a text that a piece leads to the ends marked by `after`. -/
def Piece.row (s : List Char) (after : List Bool) : Piece → List Bool
  | .literal c => charRow (· == c) s after
  | .anyChar => charRow (· != '\n') s after
  | .anyRun => spanRow (· != '/') s after
  | .anyFolders => (foldersRow s after).1
  | .anyTail => spanRow (· != '\n') s after

/-- Marks the empty end only. -/
def endRow (s : List Char) : List Bool := s.map (fun _ => false) ++ [true]

/-- The ends of a text that the pieces match. -/
def rows (ps : List Piece) (s : List Char) : List Bool :=
  ps.foldr (fun p after => p.row s after) (endRow s)

def accepts (ps : List Piece) (s : List Char) : Bool := (rows ps s).headD false

/-- Why a pattern is not used as a glob. -/
inductive Refusal where
  | notAGlob
  | tooLarge
  deriving DecidableEq, Repr

def Refusal.message (pattern : String) : Refusal → String
  | .notAGlob => "not a glob: '" ++ pattern ++ "'"
  | .tooLarge => "invalid glob '" ++ pattern ++ "': Compiled regex exceeds size limit of " ++
      toString Automaton.maxSize ++ " bytes."

/-- Whether a pattern is a glob rather than the path of one file. -/
def isGlob (pattern : String) : Bool := pattern.toList.contains '*'

/-- The size of a piece in the automaton that reads the bytes of a path from their end. All
characters but one fall into ten ranges of byte sequences, which have thirty states in all; a
repetition is one more state, with one branch into what it repeats and one past it. -/
def Piece.size : Piece → Nat
  | .literal c => Automaton.size c.utf8Size 0
  | .anyChar => Automaton.size 30 10
  | .anyRun => Automaton.size 31 12
  | .anyFolders => Automaton.size 33 14
  | .anyTail => Automaton.size 31 12

/-- The size of a pattern as an automaton. Beside the pieces there are a state where it begins, one
for either end of the path and one where it accepts. -/
def size (ps : List Piece) : Nat := ps.foldr (fun p n => p.size + n) (Automaton.size 4 0)

end Glob

/-- A glob with the class of headers that it speaks about. -/
structure Glob where
  pattern : String
  visibility : Visibility
  pieces : List Glob.Piece
  deriving DecidableEq, Repr

namespace Glob

def ofPattern (pattern : String) (visibility : Visibility) : Except Refusal Glob :=
  let ps := parse pattern.toList
  if !isGlob pattern then .error .notAGlob
  else if Automaton.maxSize < size ps then .error .tooLarge
  else .ok ⟨pattern, visibility, ps⟩

/-- Whether the glob matches a text, whatever the class. -/
def matchesText (g : Glob) (s : List Char) : Bool := accepts g.pieces s

/-- Whether the glob speaks about a header and matches its path. -/
def hits (g : Glob) (h : Header) : Bool :=
  g.visibility.admits h.visibility && g.matchesText h.path.chars

/-- For each header of a sequence whether it is hit, and whether it or one before it is. -/
def hitsInTurn (g : Glob) : Bool → List Header → List (Bool × Bool)
  | _, [] => []
  | before, h :: hs =>
    let hit := g.hits h
    (hit, before || hit) :: hitsInTurn g (before || hit) hs

end Glob

end LibraryHeaders
