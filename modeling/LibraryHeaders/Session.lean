import LibraryHeaders.FileList
import LibraryHeaders.Report

/-!
# Sessions

One header sequence and one list of warnings, changed step by step in any order.
-/

namespace LibraryHeaders

structure Session where
  headers : List Header
  warnings : List Warning
  deriving DecidableEq, Repr

namespace Session

inductive Step where
  | push (h : Header)
  | parse (text : String) (origin : Path)
  | load (lists : List Path)
  /-- Adds extra headers and keeps what it has added when one is missing. -/
  | extras (d : Directives)
  /-- Adds all extra headers or none. -/
  | build (d : Directives)
  | exclude (ds : List Directive)
  | umbrella (framework : Option String) (named : Visibility → Option String)
  | umbrellaOf (framework : Option String) (v : Visibility) (named : Option String)

inductive Answer where
  | done
  | loaded (count : Nat)
  | warned (warnings : List Warning)
  | designated (places : List (Visibility × Nat))
  | place (index : Option Nat)
  deriving DecidableEq, Repr

/-- The session after a step, and what the step answers. -/
def apply (fs : FileSystem) (namer : IncludeNamer) (s : Session) :
    Step → Session × Except Problem Answer
  | .push h => ({ s with headers := s.headers ++ [h] }, .ok .done)
  | .parse text origin =>
    let (hs, outcome) := FileList.append text origin s.headers
    ({ s with headers := hs }, outcome.map fun _ => .done)
  | .load lists =>
    match FileList.load fs lists with
    | .ok hs => ({ s with headers := s.headers ++ hs }, .ok (.loaded hs.length))
    | .error e => (s, .error e)
  | .extras d =>
    let (hs, outcome) := Extras.append fs namer d s.headers
    ({ s with headers := hs }, outcome.map fun _ => .done)
  | .build d =>
    match Extras.build fs namer d s.headers with
    | .ok hs => ({ s with headers := hs }, .ok .done)
    | .error e => (s, .error e)
  | .exclude ds =>
    match Exclusion.apply fs ds s.headers with
    | (hs, .ok ws) => (⟨hs, s.warnings ++ ws⟩, .ok (.warned ws))
    | (hs, .error e) => ({ s with headers := hs }, .error e)
  | .umbrella framework named =>
    let (hs, outcome) := Umbrella.resolve framework named s.headers
    ({ s with headers := hs }, outcome.map .designated)
  | .umbrellaOf framework v named =>
    let (hs, outcome) := Umbrella.resolveClass framework v named s.headers
    ({ s with headers := hs }, outcome.map .place)

/-- The session after some steps. -/
def run (fs : FileSystem) (namer : IncludeNamer) (s : Session) (steps : List Step) : Session :=
  steps.foldl (fun s step => (apply fs namer s step).1) s

/-- The header set as it stands. -/
def resolution (s : Session) : Resolution := ⟨s.headers, s.warnings⟩

end Session

end LibraryHeaders
