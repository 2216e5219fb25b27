import LibraryHeaders.Directives
import LibraryHeaders.Glob

/-!
# Exclusion

Directives that exclude headers. A glob excludes the headers of its class whose path it matches. Any
other entry is the path of one file, which has to exist, and excludes every header that names the
same file, whatever its class and its spelling. Excluded headers stay in the sequence. If one entry
names no file, nothing is excluded.

The globs go through the sequence together, and each remembers whether it has hit a header. A glob
that has hit none in the end is worth a warning.
-/

namespace LibraryHeaders.Exclusion

/-- A glob, and whether it has hit a header so far. -/
structure Watch where
  glob : Glob
  matched : Bool
  deriving DecidableEq, Repr

/-- What some directives exclude, globs and files apart. -/
structure Compiled where
  globs : List Watch
  files : List FileId
  deriving DecidableEq, Repr

/-- The identity of an existing regular file. -/
def fileId? (fs : FileSystem) (entry : String) : Option FileId :=
  let path := Path.ofString entry
  if fs.isFile path then fs.identity path else none

/-- Reads some directives in turn, behind those that have been read. -/
def compile (fs : FileSystem) (done : Compiled) : List Directive → Except Problem Compiled
  | [] => .ok done
  | d :: ds =>
    match Glob.ofPattern d.pattern d.visibility with
    | .ok g => compile fs { done with globs := done.globs ++ [⟨g, false⟩] } ds
    | .error _ =>
      match fileId? fs d.pattern with
      | some id => compile fs { done with files := done.files ++ [id] } ds
      | none => .error (.noSuchHeaderFile d.pattern d.visibility)

/-- Shows a header to every glob, also behind one that hits it; with whether one does. -/
def look (h : Header) : List Watch → List Watch × Bool
  | [] => ([], false)
  | w :: ws =>
    let hit := w.glob.hits h
    let (ws, others) := look h ws
    ({ w with matched := w.matched || hit } :: ws, hit || others)

/-- Flags the headers that the globs hit, one header after the other. -/
def sweep : List Watch → List Header → List Watch × List Header
  | ws, [] => (ws, [])
  | ws, h :: hs =>
    let (ws, hit) := look h ws
    let (ws, rest) := sweep ws hs
    (ws, (if hit then h.exclude else h) :: rest)

/-- Flags a header that names one of some files. -/
def flagFile (fs : FileSystem) (files : List FileId) (h : Header) : Header :=
  match fs.identity h.path with
  | some id => if files.contains id then h.exclude else h
  | none => h

/-- The warnings of the globs that have hit nothing. -/
def warnings (ws : List Watch) : List Warning :=
  (ws.filter fun w => !w.matched).map fun w => ⟨w.glob.pattern, w.glob.visibility⟩

/-- The sequence after exclusion, and the warnings in the order of the directives. -/
def apply (fs : FileSystem) (ds : List Directive) (hs : List Header) :
    List Header × Except Problem (List Warning) :=
  match compile fs ⟨[], []⟩ ds with
  | .error e => (hs, .error e)
  | .ok c =>
    let (ws, swept) := sweep c.globs hs
    let flagged := if c.files.isEmpty then swept else swept.map (flagFile fs c.files)
    (flagged, .ok (warnings ws))

end LibraryHeaders.Exclusion
