import LibraryHeaders.Proofs.FileLists

/-!
# Loading file lists one after another

The headers of several file lists are put together in one sequence. What a list adds to it, and
whether the list is in order, has nothing to do with the headers that are there already, so loading
two runs of lists is loading each of them: their headers follow each other, and the first list that
is not in order is the one that is reported.
-/

namespace LibraryHeaders.FileList

variable {fs : FileSystem} {p : Path} {e : Problem}

/-- The text of the file list is read as these headers. -/
def Gives (fs : FileSystem) (p : Path) (hs : List Header) : Prop :=
  ∃ text, fs.read p = .ok text ∧ append text p [] = (hs, .ok ())

/-- Why a file list is not loaded: its file cannot be read, or its text is not in order. -/
inductive Fails (fs : FileSystem) (p : Path) : Problem → Prop where
  | unreadable {fault : FileFault} (read : fs.read p = .error fault) :
      Fails fs p (.cannotOpen p.text fault)
  | invalid {text : String} {fault : ListFault} (read : fs.read p = .ok text)
      (parsed : (append text p []).2 = .error (.invalidFileList p.text fault)) :
      Fails fs p (.invalidFileList p.text fault)

/-- The problem with a file list. -/
def problem? (fs : FileSystem) (p : Path) : Option Problem :=
  match fs.read p with
  | .error fault => some (.cannotOpen p.text fault)
  | .ok text =>
    match (append text p []).2 with
    | .error e => some e
    | .ok () => none

/-- The headers that a file list adds; a file that cannot be read adds none. -/
def listed (fs : FileSystem) (p : Path) : List Header :=
  match fs.read p with
  | .error _ => []
  | .ok text => (append text p []).1

/-- What a text adds, and how that ends, does not depend on the headers before it. -/
theorem append_eq_behind (text : String) (origin : Path) (hs : List Header) :
    append text origin hs = (hs ++ (append text origin []).1, (append text origin []).2) := by
  rw [append, append]
  cases ofText text.toList with
  | error f => rw [List.append_nil]
  | ok list => rfl

/-- Every failure names the origin of the text. -/
theorem append_outcome (text : String) (origin : Path) (hs : List Header) :
    (append text origin hs).2 = .ok () ∨
      ∃ fault, (append text origin hs).2 = .error (.invalidFileList origin.text fault) := by
  rw [append]
  cases ofText text.toList with
  | error fault => exact Or.inr ⟨fault, rfl⟩
  | ok list =>
    dsimp only
    cases (headers list.entries).2 with
    | error fault => exact Or.inr ⟨fault, rfl⟩
    | ok done => exact Or.inl rfl

theorem Gives.problem?_eq {hs : List Header} (gives : Gives fs p hs) : problem? fs p = none := by
  obtain ⟨text, read, parsed⟩ := gives
  simp only [problem?, read, parsed]

theorem Fails.problem?_eq (fails : Fails fs p e) : problem? fs p = some e := by
  cases fails with
  | unreadable read => simp only [problem?, read]
  | invalid read parsed => simp only [problem?, read, parsed]

theorem gives_or_fails (fs : FileSystem) (p : Path) :
    (∃ hs, Gives fs p hs) ∨ ∃ e, Fails fs p e := by
  cases read : fs.read p with
  | error fault => exact Or.inr ⟨_, .unreadable read⟩
  | ok text =>
    rcases append_outcome text p [] with parsed | ⟨fault, parsed⟩
    · exact Or.inl ⟨_, text, read, Prod.ext rfl parsed⟩
    · exact Or.inr ⟨_, .invalid read parsed⟩

theorem problem?_eq_some_iff : problem? fs p = some e ↔ Fails fs p e := by
  refine ⟨fun found => ?_, Fails.problem?_eq⟩
  rcases gives_or_fails fs p with ⟨hs, gives⟩ | ⟨e', fails⟩
  · rw [gives.problem?_eq] at found
    cases found
  · rw [fails.problem?_eq] at found
    cases found
    exact fails

theorem problem?_eq_none_iff : problem? fs p = none ↔ ∃ hs, Gives fs p hs := by
  refine ⟨fun sound => ?_, fun ⟨_, gives⟩ => gives.problem?_eq⟩
  rcases gives_or_fails fs p with gives | ⟨e, fails⟩
  · exact gives
  · rw [fails.problem?_eq] at sound
    cases sound

/-- Loading fails with the problem of the first list that has one. -/
theorem loadBehind_eq (fs : FileSystem) (hs : List Header) (files : List Path) :
    loadBehind fs hs files =
      match files.findSome? (problem? fs) with
      | some e => .error e
      | none => .ok (hs ++ files.flatMap (listed fs)) := by
  induction files generalizing hs with
  | nil => rw [loadBehind, List.findSome?_nil, List.flatMap_nil, List.append_nil]
  | cons p files ih =>
    rw [loadBehind, List.findSome?_cons, List.flatMap_cons, problem?, listed]
    cases fs.read p with
    | error fault => rfl
    | ok text =>
      dsimp only
      rw [append_eq_behind text p hs]
      generalize append text p [] = result
      obtain ⟨new, problem | done⟩ := result
      · rfl
      · dsimp only
        rw [ih, List.append_assoc]

/-- Loading stops at the first list that fails, with the failure of that list. -/
theorem load_eq_error_iff {files : List Path} :
    load fs files = .error e ↔ ∃ before p after, files = before ++ p :: after ∧
      (∀ q ∈ before, ∃ hs, Gives fs q hs) ∧ Fails fs p e := by
  rw [load, loadBehind_eq]
  constructor
  · intro failed
    cases search : files.findSome? (problem? fs) with
    | none =>
      rw [search] at failed
      cases failed
    | some problem =>
      rw [search] at failed
      cases failed
      obtain ⟨before, p, after, split, here, sound⟩ := List.findSome?_eq_some_iff.mp search
      exact ⟨before, p, after, split, fun q mem => problem?_eq_none_iff.mp (sound q mem),
        problem?_eq_some_iff.mp here⟩
  · rintro ⟨before, p, after, split, sound, here⟩
    have search : files.findSome? (problem? fs) = some e :=
      List.findSome?_eq_some_iff.mpr ⟨before, p, after, split, problem?_eq_some_iff.mpr here,
        fun q mem => problem?_eq_none_iff.mpr (sound q mem)⟩
    rw [search]

/-- Two runs of file lists are loaded like each of them: the headers of the second follow those of
the first, and a failure of the first goes before one of the second. A text adds the same headers
and ends in the same way whatever stands before them. So a failure is that of the first list that
cannot be read or is not in order, and it leaves no headers. -/
theorem load_append (fs : FileSystem) (files files' : List Path) :
    (load fs (files ++ files') =
      match load fs files, load fs files' with
      | .ok hs, .ok hs' => .ok (hs ++ hs')
      | .error e, _ => .error e
      | .ok _, .error e => .error e) ∧
    (∀ (text : String) (origin : Path) (hs : List Header), append text origin hs =
      (hs ++ (append text origin []).1, (append text origin []).2)) ∧
    ∀ e, load fs files = .error e ↔ ∃ before p after, files = before ++ p :: after ∧
      (∀ q ∈ before, ∃ hs, Gives fs q hs) ∧ Fails fs p e := by
  refine ⟨?_, append_eq_behind, fun e => load_eq_error_iff⟩
  rw [load, load, load, loadBehind_eq, loadBehind_eq, loadBehind_eq, List.findSome?_append,
    List.flatMap_append]
  cases files.findSome? (problem? fs) with
  | some e => rfl
  | none => cases files'.findSome? (problem? fs) <;> rfl

end LibraryHeaders.FileList
