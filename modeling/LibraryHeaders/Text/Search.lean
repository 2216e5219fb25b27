/-!
# Searching in text

First and last occurrences of one character sequence inside another.
-/

namespace LibraryHeaders.Text

/-- What follows `start`, if the text begins with it. -/
def after? : List Char → List Char → Option (List Char)
  | [], s => some s
  | _ :: _, [] => none
  | a :: start, c :: s => if a = c then after? start s else none

/-- What follows the first occurrence of `needle`. -/
def afterFirst? (needle : List Char) : List Char → Option (List Char)
  | [] => after? needle []
  | c :: s =>
    match after? needle (c :: s) with
    | some rest => some rest
    | none => afterFirst? needle s

/-- What stands before the last occurrence of `needle`. -/
def beforeLast? (needle : List Char) : List Char → Option (List Char)
  | [] => (after? needle []).map fun _ => []
  | c :: s =>
    match beforeLast? needle s with
    | some front => some (c :: front)
    | none => (after? needle (c :: s)).map fun _ => []

def occursIn (needle s : List Char) : Bool := (afterFirst? needle s).isSome

def endsWith (s ending : List Char) : Bool := ending.isSuffixOf s

/-- The parts between the occurrences of `sep`; always at least one. -/
def split {α : Type} [DecidableEq α] (sep : α) : List α → List (List α)
  | [] => [[]]
  | c :: s =>
    if c = sep then [] :: split sep s
    else match split sep s with
      | [] => [[c]]
      | part :: parts => (c :: part) :: parts

end LibraryHeaders.Text
