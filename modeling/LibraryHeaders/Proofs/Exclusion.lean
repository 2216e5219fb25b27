import LibraryHeaders.Exclusion
import Mathlib.Data.List.Basic
import Mathlib.Data.List.Forall2

/-!
# What exclusion flags

A directive is a glob if its pattern compiles as one; otherwise it is the path of one file. The
first path that names no file with an identity makes exclusion fail, and nothing has been flagged
by then. Without such a path a header ends up flagged exactly if it was flagged before or if some
directive finds it, and the warnings are those of the globs that find no header at all.

The sweep carries one flag for each glob through the sequence. `sweep_eq` says what all flags and
all headers are in the end, so that nothing later follows the sweep step by step.
-/

namespace LibraryHeaders

namespace Directive

/-- The pattern compiles as a glob. -/
def IsGlob (d : Directive) : Prop := ∃ g, Glob.ofPattern d.pattern d.visibility = .ok g

/-- A glob that speaks about the class of a header and matches the text of its path. -/
def Matches (d : Directive) (h : Header) : Prop :=
  ∃ g, Glob.ofPattern d.pattern d.visibility = .ok g ∧
    (d.visibility = .unspecified ∨ d.visibility = h.visibility) ∧
    g.matchesText h.path.chars = true

/-- No glob but the path of an existing regular file, which has this identity. -/
def Names (fs : FileSystem) (d : Directive) (id : FileId) : Prop :=
  ¬ d.IsGlob ∧ fs.isFile (Path.ofString d.pattern) = true ∧
    fs.identity (Path.ofString d.pattern) = some id

/-- No glob, and the path of no existing regular file that has an identity. -/
def Dangles (fs : FileSystem) (d : Directive) : Prop := ¬ d.IsGlob ∧ ∀ id, ¬ d.Names fs id

def glob? (d : Directive) : Option Glob := (Glob.ofPattern d.pattern d.visibility).toOption

/-- The file that a directive names, if it is no glob. -/
def file? (fs : FileSystem) (d : Directive) : Option FileId :=
  match d.glob? with
  | some _ => none
  | none => Exclusion.fileId? fs d.pattern

theorem glob?_eq_some {d : Directive} {g : Glob} :
    d.glob? = some g ↔ Glob.ofPattern d.pattern d.visibility = .ok g := by
  unfold glob?
  cases Glob.ofPattern d.pattern d.visibility <;> simp [Except.toOption]

theorem isGlob_iff {d : Directive} : d.IsGlob ↔ d.glob?.isSome = true := by
  simp only [IsGlob, ← glob?_eq_some, Option.isSome_iff_exists]

instance (d : Directive) : Decidable d.IsGlob := decidable_of_iff _ isGlob_iff.symm

theorem glob_of_glob? {d : Directive} {g : Glob} (compiled : d.glob? = some g) :
    g.pattern = d.pattern ∧ g.visibility = d.visibility := by
  have ok := glob?_eq_some.mp compiled
  simp only [Glob.ofPattern] at ok
  split at ok
  · cases ok
  · split at ok
    · cases ok
    · cases ok
      exact ⟨rfl, rfl⟩

theorem matches_iff {d : Directive} {h : Header} :
    d.Matches h ↔ ∃ g, d.glob? = some g ∧ g.hits h = true := by
  constructor
  · rintro ⟨g, ok, speaks, found⟩
    have compiled := glob?_eq_some.mpr ok
    refine ⟨g, compiled, ?_⟩
    rw [Glob.hits, (glob_of_glob? compiled).2, found]
    simpa [Visibility.admits] using speaks
  · rintro ⟨g, compiled, hit⟩
    rw [Glob.hits, (glob_of_glob? compiled).2, Bool.and_eq_true] at hit
    exact ⟨g, glob?_eq_some.mp compiled, by simpa [Visibility.admits] using hit.1, hit.2⟩

instance (d : Directive) (h : Header) : Decidable (d.Matches h) :=
  decidable_of_iff ((d.glob?.any (·.hits h)) = true)
    (by rw [matches_iff, Option.any_eq_true])

theorem names_iff {fs : FileSystem} {d : Directive} {id : FileId} :
    d.Names fs id ↔ d.file? fs = some id := by
  unfold Names file? Exclusion.fileId?
  rw [isGlob_iff]
  cases d.glob? with
  | some g => simp
  | none => by_cases exist : fs.isFile (Path.ofString d.pattern) = true <;> simp [exist]

theorem dangles_iff {fs : FileSystem} {d : Directive} :
    d.Dangles fs ↔ d.glob? = none ∧ d.file? fs = none := by
  simp only [Dangles, isGlob_iff, names_iff]
  cases d.glob? <;> cases d.file? fs <;> simp

end Directive

namespace Exclusion

/-- A glob that has not been shown any header yet. -/
def Watch.start (g : Glob) : Watch := ⟨g, false⟩

/-- A glob that has been shown some headers. -/
def Watch.after (hs : List Header) (w : Watch) : Watch :=
  { w with matched := w.matched || hs.any w.glob.hits }

/-- The header is excluded by one of some globs. -/
def flagHit (ws : List Watch) (h : Header) : Header :=
  if ws.any (·.glob.hits h) then h.exclude else h

/-- A directive is read as a glob or as a file, or it dangles and ends the reading. -/
theorem compile_step (fs : FileSystem) (done : Compiled) (d : Directive) (ds : List Directive) :
    (¬ d.Dangles fs ∧ compile fs done (d :: ds) =
        compile fs ⟨done.globs ++ d.glob?.toList.map Watch.start,
          done.files ++ (d.file? fs).toList⟩ ds) ∨
      (d.Dangles fs ∧
        compile fs done (d :: ds) = .error (.noSuchHeaderFile d.pattern d.visibility)) := by
  rw [Directive.dangles_iff, compile]
  cases compiled : Glob.ofPattern d.pattern d.visibility with
  | ok g =>
    have glob : d.glob? = some g := Directive.glob?_eq_some.mpr compiled
    have file : d.file? fs = none := by rw [Directive.file?, glob]
    exact Or.inl ⟨by simp [glob], by simp [glob, file, Watch.start]⟩
  | error refusal =>
    have glob : d.glob? = none := by rw [Directive.glob?, compiled]; rfl
    have file : d.file? fs = fileId? fs d.pattern := by rw [Directive.file?, glob]
    cases named : fileId? fs d.pattern with
    | some id => exact Or.inl ⟨by simp [file, named], by simp [glob, file, named]⟩
    | none => exact Or.inr ⟨⟨glob, file.trans named⟩, rfl⟩

theorem compile_error {fs : FileSystem} {done : Compiled} {ds : List Directive} {e : Problem}
    (failed : compile fs done ds = .error e) :
    ∃ before d after, ds = before ++ d :: after ∧ d.Dangles fs ∧
      (∀ b ∈ before, ¬ b.Dangles fs) ∧ e = .noSuchHeaderFile d.pattern d.visibility := by
  induction ds generalizing done with
  | nil => cases failed
  | cons d ds ih =>
    rcases compile_step fs done d ds with ⟨sound, step⟩ | ⟨dangles, step⟩
    · obtain ⟨before, d', after, split, dangles, sounds, named⟩ := ih (step.symm.trans failed)
      refine ⟨d :: before, d', after, by rw [split]; rfl, dangles, ?_, named⟩
      intro b hb
      rcases List.mem_cons.mp hb with rfl | hb
      · exact sound
      · exact sounds b hb
    · have same := step.symm.trans failed
      cases same
      exact ⟨[], d, ds, rfl, dangles, by simp, rfl⟩

theorem compile_ok {fs : FileSystem} {done c : Compiled} {ds : List Directive}
    (read : compile fs done ds = .ok c) :
    (∀ d ∈ ds, ¬ d.Dangles fs) ∧
      c.globs = done.globs ++ (ds.filterMap Directive.glob?).map Watch.start ∧
      c.files = done.files ++ ds.filterMap (Directive.file? fs) := by
  induction ds generalizing done with
  | nil => cases read; simp
  | cons d ds ih =>
    rcases compile_step fs done d ds with ⟨sound, step⟩ | ⟨_, step⟩
    · obtain ⟨sounds, globs, files⟩ := ih (step.symm.trans read)
      refine ⟨?_, ?_, ?_⟩
      · intro b hb
        rcases List.mem_cons.mp hb with rfl | hb
        · exact sound
        · exact sounds b hb
      · rw [globs, List.append_assoc, ← List.map_append]
        cases compiled : d.glob? <;> simp [compiled]
      · rw [files, List.append_assoc]
        cases named : d.file? fs <;> simp [named]
    · have same := step.symm.trans read
      cases same

@[simp]
theorem Watch.after_nil (w : Watch) : w.after [] = w := by
  simp [Watch.after]

theorem look_eq (h : Header) (ws : List Watch) :
    look h ws = (ws.map (Watch.after [h]), ws.any (·.glob.hits h)) := by
  induction ws with
  | nil => rfl
  | cons w ws ih => simp [look, ih, Watch.after]

/-- Every glob comes out with its flag raised if it hits some header, and every header with its
flag raised if some glob hits it, however the hits of others fall. -/
theorem sweep_eq (ws : List Watch) (hs : List Header) :
    sweep ws hs = (ws.map (Watch.after hs), hs.map (flagHit ws)) := by
  induction hs generalizing ws with
  | nil =>
    have unseen : Watch.after [] = id := funext Watch.after_nil
    simp [sweep, unseen]
  | cons h hs ih =>
    have globs : ∀ h', (ws.map (Watch.after [h])).any (·.glob.hits h') = ws.any (·.glob.hits h') := by
      intro h'
      simp [List.any_map, Function.comp_def, Watch.after]
    have flags : flagHit (ws.map (Watch.after [h])) = flagHit ws := by
      funext h'
      rw [flagHit, flagHit, globs]
    rw [sweep, look_eq]
    simp only [ih, flags, List.map_map, List.map_cons, Prod.mk.injEq]
    refine ⟨?_, rfl⟩
    apply List.map_congr_left
    intro w _
    simp [Watch.after, Bool.or_assoc]

theorem any_start_iff {ds : List Directive} {h : Header} :
    ((ds.filterMap Directive.glob?).map Watch.start).any (·.glob.hits h) = true ↔
      ∃ d ∈ ds, d.Matches h := by
  simp only [List.any_map, List.any_eq_true, List.mem_filterMap, Function.comp_apply, Watch.start,
    Directive.matches_iff]
  constructor
  · rintro ⟨g, ⟨d, hd, compiled⟩, hit⟩
    exact ⟨d, hd, g, compiled, hit⟩
  · rintro ⟨d, hd, g, compiled, hit⟩
    exact ⟨g, ⟨d, hd, compiled⟩, hit⟩

theorem flagFile_nil (fs : FileSystem) : flagFile fs [] = id := by
  funext h
  rw [flagFile]
  cases fs.identity h.path <;> rfl

/-- Both flaggings touch nothing but one flag, and raise it for one of two reasons. -/
theorem flagFile_flagHit (fs : FileSystem) (files : List FileId) (ws : List Watch) (h : Header) :
    flagFile fs files (flagHit ws h) =
      { h with isExcluded := h.isExcluded || ws.any (·.glob.hits h) ||
          (fs.identity h.path).any files.contains } := by
  have path : (flagHit ws h).path = h.path := by
    rw [flagHit]
    split <;> rfl
  rw [flagFile, path]
  cases fs.identity h.path with
  | none => cases hit : ws.any (·.glob.hits h) <;> simp [flagHit, hit, Header.exclude]
  | some id =>
    cases hit : ws.any (·.glob.hits h) <;> by_cases named : id ∈ files <;>
      simp [flagHit, hit, named, Header.exclude]

theorem apply_of_compile {fs : FileSystem} {ds : List Directive} {c : Compiled}
    (read : compile fs ⟨[], []⟩ ds = .ok c) (hs : List Header) :
    apply fs ds hs =
      (hs.map fun h => flagFile fs c.files (flagHit c.globs h),
        .ok (warnings (c.globs.map (Watch.after hs)))) := by
  rw [apply, read]
  simp only [sweep_eq, List.map_map, Function.comp_def]
  split
  · rename_i none
    rw [List.isEmpty_iff.mp none, flagFile_nil]
    rfl
  · rfl

/-- The warnings follow the directives, and leave out the files and the globs that hit. -/
theorem warnings_after (ds : List Directive) (hs : List Header) :
    warnings (((ds.filterMap Directive.glob?).map Watch.start).map (Watch.after hs)) =
      (ds.filter fun d => d.IsGlob ∧ ∀ h ∈ hs, ¬ d.Matches h).map
        fun d => ⟨d.pattern, d.visibility⟩ := by
  induction ds with
  | nil => rfl
  | cons d ds ih =>
    cases compiled : d.glob? with
    | none =>
      have literal : ¬ d.IsGlob := by simp [Directive.isGlob_iff, compiled]
      rw [List.filterMap_cons_none compiled, List.filter_cons_of_neg (by simp [literal])]
      exact ih
    | some g =>
      have glob : d.IsGlob := by simp [Directive.isGlob_iff, compiled]
      have found : ∀ h, d.Matches h ↔ g.hits h = true := by
        intro h
        rw [Directive.matches_iff, compiled]
        simp
      obtain ⟨pattern, visibility⟩ := Directive.glob_of_glob? compiled
      have seen : (Watch.start g).after hs = ⟨g, hs.any g.hits⟩ := by
        simp [Watch.start, Watch.after]
      rw [List.filterMap_cons_some compiled, List.map_cons, List.map_cons, seen]
      by_cases hit : hs.any g.hits = true
      · have matched : ¬ ∀ h ∈ hs, ¬ d.Matches h := by simpa [found] using hit
        rw [List.filter_cons_of_neg (by simpa [glob] using matched)]
        simpa [warnings, hit] using ih
      · have idle : ∀ h ∈ hs, ¬ d.Matches h := by simpa [found] using hit
        rw [List.filter_cons_of_pos (by simpa [glob] using idle), List.map_cons, ← ih]
        simp [warnings, hit, pattern, visibility]

/-- Exclusion fails exactly at the first path that names no file, and then changes nothing;
otherwise the flags and the warnings are those that the directives call for. -/
theorem apply_flags_exactly (fs : FileSystem) (ds : List Directive) (hs : List Header) :
    match apply fs ds hs with
    | (final, .error problem) =>
      final = hs ∧ ∃ before d after, ds = before ++ d :: after ∧ d.Dangles fs ∧
        (∀ b ∈ before, ¬ b.Dangles fs) ∧ problem = .noSuchHeaderFile d.pattern d.visibility
    | (final, .ok ws) =>
      (∀ d ∈ ds, ¬ d.Dangles fs) ∧
        List.Forall₂ (fun h h' => h' = { h with isExcluded := h'.isExcluded } ∧
          (h'.isExcluded = true ↔ h.isExcluded = true ∨ (∃ d ∈ ds, d.Matches h) ∨
            ∃ d ∈ ds, ∃ id, d.Names fs id ∧ fs.identity h.path = some id)) hs final ∧
        ws = (ds.filter fun d => d.IsGlob ∧ ∀ h ∈ hs, ¬ d.Matches h).map
          fun d => ⟨d.pattern, d.visibility⟩ := by
  cases read : compile fs ⟨[], []⟩ ds with
  | error problem =>
    rw [apply, read]
    exact ⟨rfl, compile_error read⟩
  | ok c =>
    obtain ⟨sounds, globs, files⟩ := compile_ok read
    rw [List.nil_append] at globs files
    have named : ∀ h : Header, (fs.identity h.path).any c.files.contains = true ↔
        ∃ d ∈ ds, ∃ id, d.Names fs id ∧ fs.identity h.path = some id := by
      intro h
      rw [Option.any_eq_true, files]
      simp only [List.contains_iff_mem, List.mem_filterMap, Directive.names_iff]
      constructor
      · rintro ⟨id, same, d, hd, file⟩
        exact ⟨d, hd, id, file, same⟩
      · rintro ⟨d, hd, id, file, same⟩
        exact ⟨id, same, d, hd, file⟩
    rw [apply_of_compile read]
    refine ⟨sounds, ?_, by rw [globs, warnings_after]⟩
    rw [List.forall₂_map_right_iff, List.forall₂_same]
    intro h _
    rw [flagFile_flagHit]
    refine ⟨rfl, ?_⟩
    rw [Bool.or_eq_true, Bool.or_eq_true, named, globs, any_start_iff, or_assoc]

end Exclusion

end LibraryHeaders
