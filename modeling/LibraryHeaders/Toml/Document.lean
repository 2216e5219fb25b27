import LibraryHeaders.Toml.Scalar

/-!
# TOML documents

A document is a sequence of sections, each a heading with the assignments below it. Assignments make
tables through dotted keys, and headings make them through their own keys; a table that is written
out once cannot be written out again, and neither way may reopen a table that the other one made.
The members of every table keep the order in which they come into being.
-/

namespace LibraryHeaders.Toml

/-! ## Tables in the making -/

/-- How a table came into being. -/
inductive Origin where
  /-- By a heading of its own, or between braces. -/
  | written
  /-- As a part of the key of another heading. -/
  | passed
  /-- As a part of a dotted key. -/
  | dotted
  deriving DecidableEq, Repr

inductive Node where
  | value (d : Datum)
  | table (origin : Origin) (members : List (String × Node))
  /-- The elements of an array of tables, each opened by a heading. -/
  | tables (elements : List (List (String × Node)))

abbrev Members := List (String × Node)

namespace Members

def at? (ms : Members) (k : String) : Option Node := (List.find? (·.1 == k) ms).map (·.2)

/-- Puts a node in the place of the one that stands under a key. -/
def replace (ms : Members) (k : String) (n : Node) : Members :=
  ms.map fun m => if m.1 == k then (k, n) else m

def add (ms : Members) (k : String) (n : Node) : Members := ms ++ [(k, n)]

def without (ms : Members) (k : String) : Members := ms.filter fun m => m.1 != k

/-- Assigns a value to a key of a table. A key with dots leads through tables that it makes, or that
are still open to it, and its last table has to be made by dots; a key without dots has to stand in
a table that is not. -/
def assign (d : Datum) (last : String) (dots : Bool) : List String → Origin → Members → Option Members
  | [], origin, ms =>
    if (origin == .dotted) == dots ∧ (at? ms last).isNone then some (add ms last (.value d)) else none
  | k :: ks, _, ms =>
    match at? ms k with
    | none => (assign d last dots ks .dotted []).map fun sub => add ms k (.table .dotted sub)
    | some (.value _) => none
    | some (.table .written _) => none
    | some (.table origin sub) =>
      (assign d last dots ks origin sub).map fun sub => replace ms k (.table origin sub)
    | some (.tables elements) =>
      match elements.getLast? with
      | none => none
      | some sub =>
        (assign d last dots ks .written sub).map fun sub =>
          replace ms k (.tables (elements.dropLast ++ [sub]))

/-- Makes all assignments of a section. -/
def assignAll (ms : Members) (pairs : List ((List String × String) × Datum)) : Option Members :=
  pairs.foldlM (fun ms p => assign p.2 p.1.2 (!p.1.1.isEmpty) p.1.1 .written ms) ms

/-- Changes the table that the key of a heading leads to; of an array of tables it leads to the last
element. -/
def descend (f : Members → Option Members) : List String → Members → Option Members
  | [], ms => f ms
  | k :: ks, ms =>
    match at? ms k with
    | none => (descend f ks []).map fun sub => add ms k (.table .passed sub)
    | some (.value _) => none
    | some (.table origin sub) =>
      (descend f ks sub).map fun sub => replace ms k (.table origin sub)
    | some (.tables elements) =>
      match elements.getLast? with
      | none => none
      | some sub =>
        (descend f ks sub).map fun sub => replace ms k (.tables (elements.dropLast ++ [sub]))

end Members

/-- What opens a section. -/
inductive Heading where
  | top
  | table (parents : List String) (last : String)
  | element (parents : List String) (last : String)
  deriving DecidableEq, Repr

structure Section where
  heading : Heading
  assignments : List ((List String × String) × Datum)

/-- Adds a section to a document. A table through which headings have only passed may still be
written out, and then counts as the newest member. -/
def Section.addTo (s : Section) (document : Members) : Option Members :=
  match s.heading with
  | .top => Members.assignAll document s.assignments
  | .table parents last =>
    Members.descend (fun ms =>
      match Members.at? ms last with
      | none =>
        (Members.assignAll [] s.assignments).map fun sub =>
          Members.add ms last (.table .written sub)
      | some (.table .passed sub) =>
        (Members.assignAll sub s.assignments).map fun sub =>
          Members.add (Members.without ms last) last (.table .written sub)
      | some _ => none) parents document
  | .element parents last =>
    Members.descend (fun ms =>
      match Members.at? ms last with
      | none =>
        (Members.assignAll [] s.assignments).map fun sub => Members.add ms last (.tables [sub])
      | some (.tables elements) =>
        (Members.assignAll [] s.assignments).map fun sub =>
          Members.replace ms last (.tables (elements ++ [sub]))
      | some _ => none) parents document

mutual

def Node.datum : Node → Datum
  | .value d => d
  | .table _ ms => .table (memberData ms)
  | .tables es => .list (elementData es)

def memberData : List (String × Node) → List (String × Datum)
  | [] => []
  | (k, n) :: ms => (k, n.datum) :: memberData ms

def elementData : List (List (String × Node)) → List Datum
  | [] => []
  | e :: es => .table (memberData e) :: elementData es

end

/-! ## Values -/

/-- Passes over blanks, comments and line breaks inside a list. -/
def skipLines : Nat → List Char → Option (List Char)
  | 0, _ => none
  | fuel + 1, s =>
    match skipSpace s with
    | '#' :: s => (lineBreak? (s.dropWhile isPlain)).bind (skipLines fuel)
    | '\n' :: s => skipLines fuel s
    | '\r' :: s => (lineBreak? ('\r' :: s)).bind (skipLines fuel)
    | s => some s

mutual

/-- A value; `room` tells how many levels of nesting are left. -/
def value : (fuel room : Nat) → Reader Datum
  | 0, _, _ => none
  | _ + 1, _, [] => none
  | fuel + 1, room, c :: s =>
    if c = '"' ∨ c = '\'' then
      (string (c :: s)).map fun (t, rest) => (.string (String.ofList t), rest)
    else if c = '[' then
      if room = 0 then none
      else (items fuel (room - 1) s).map fun (ds, rest) => (.list ds, rest)
    else if c = '{' then
      if room = 0 then none
      else
        match skipSpace s with
        | '}' :: rest => some (.table [], rest)
        | s => do
          let (pairs, rest) ← inlinePairs fuel (room - 1) s
          let ms ← Members.assignAll [] pairs
          return (.table (memberData ms), rest)
    else if c = '+' ∨ c = '-' ∨ c.isDigit then numberOrDate (c :: s)
    else word (c :: s)

/-- The items of a list whose opening bracket has been read. -/
def items : (fuel room : Nat) → Reader (List Datum)
  | 0, _, _ => none
  | fuel + 1, room, s => do
    let s ← skipLines (s.length + 1) s
    match s with
    | ']' :: rest => return ([], rest)
    | s =>
      let (d, s) ← value fuel room s
      let s ← skipLines (s.length + 1) s
      match s with
      | ',' :: s => (items fuel room s).map fun (ds, rest) => (d :: ds, rest)
      | ']' :: rest => return ([d], rest)
      | _ => none

/-- The assignments between braces, of which there is at least one. -/
def inlinePairs : (fuel room : Nat) → Reader (List ((List String × String) × Datum))
  | 0, _, _ => none
  | fuel + 1, room, s => do
    let (k, s) ← key s
    let s ← mark '=' s
    let (d, s) ← value fuel room (skipSpace s)
    match skipSpace s with
    | ',' :: s => (inlinePairs fuel room s).map fun (ps, rest) => ((k, d) :: ps, rest)
    | '}' :: rest => return ([(k, d)], rest)
    | _ => none

end

/-! ## Lines -/

/-- One assignment, up to the end of its line. -/
def assignment (s : List Char) : Option (((List String × String) × Datum) × List Char) := do
  let (k, s) ← key s
  let s ← mark '=' s
  let (d, s) ← value (4 * s.length + 8) (depthLimit - 1) (skipSpace s)
  let rest ← endOfLine? s
  return ((k, d), rest)

/-- A heading whose first bracket has been read, up to the end of its line. -/
def heading : Reader Heading
  | '[' :: s => do
    let ((parents, last), s) ← key s
    let s ← mark ']' s
    let s ← mark ']' s
    let rest ← endOfLine? s
    return (.element parents last, rest)
  | s => do
    let ((parents, last), s) ← key s
    let s ← mark ']' s
    let rest ← endOfLine? s
    return (.table parents last, rest)

/-- The sections of a text; `current` is the one being read, its assignments in reverse order. -/
def sections : Nat → Section → List Section → List Char → Option (List Section)
  | 0, _, _, _ => none
  | fuel + 1, current, done, s =>
    let close := { current with assignments := current.assignments.reverse } :: done
    match skipSpace s with
    | [] => some close.reverse
    | '#' :: s => (endOfLine? ('#' :: s)).bind (sections fuel current done)
    | '[' :: s => do
      let (h, rest) ← heading s
      sections fuel ⟨h, []⟩ close rest
    | c :: s =>
      match lineBreak? (c :: s) with
      | some rest => sections fuel current done rest
      | none => do
        let (a, rest) ← assignment (c :: s)
        sections fuel { current with assignments := a :: current.assignments } done rest

/-- A byte order mark may stand before the document. -/
def dropMark : List Char → List Char
  | c :: s => if c = '\uFEFF' then s else c :: s
  | [] => []

/-- The document in a text, if it is well formed. -/
def read (s : List Char) : Option Datum := do
  let s := dropMark s
  let parts ← sections (s.length + 2) ⟨.top, []⟩ [] s
  let document ← parts.foldlM (fun ms p => p.addTo ms) []
  return .table (memberData document)

end LibraryHeaders.Toml
