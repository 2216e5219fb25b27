import LibraryHeaders.Proofs.Conservation
import LibraryHeaders.Proofs.FirstMatch
import Mathlib.Data.List.TakeWhile

/-!
# The stages in closed form

Every stage of a resolution goes through a list of items in turn, and each item can make a problem:
a directory that cannot be read, an extra header that is missing, a file to exclude that is missing,
a named umbrella header that is missing. A stage fails with the problem of the first item that makes
one. What it has done by then differs from stage to stage, and is said here without following the
stage item by item.
-/

namespace LibraryHeaders

/-- The first of some items that makes a problem, and the items before it. -/
structure FirstProblem {α : Type} (problem? : α → Option Problem) (items before : List α) (item : α)
    (problem : Problem) : Prop where
  split : ∃ after, items = before ++ item :: after
  sound : ∀ b ∈ before, problem? b = none
  here : problem? item = some problem

/-- No item makes a problem. -/
def Sound {α : Type} (problem? : α → Option Problem) (items : List α) : Prop :=
  ∀ item ∈ items, problem? item = none

section Items

variable {α : Type} {problem? : α → Option Problem} {items before : List α} {item : α}
  {problem : Problem}

theorem Sound.findSome?_eq (sound : Sound problem? items) : items.findSome? problem? = none :=
  List.findSome?_eq_none_iff.mpr sound

theorem Sound.takeWhile_eq (sound : Sound problem? items) :
    items.takeWhile (fun x => (problem? x).isNone) = items := by
  rw [List.takeWhile_eq_self_iff]
  intro item mem
  rw [sound item mem]
  rfl

theorem FirstProblem.findSome?_eq (first : FirstProblem problem? items before item problem) :
    items.findSome? problem? = some problem := by
  obtain ⟨after, split⟩ := first.split
  exact List.findSome?_eq_some_iff.mpr ⟨before, item, after, split, first.here, first.sound⟩

theorem FirstProblem.takeWhile_eq (first : FirstProblem problem? items before item problem) :
    items.takeWhile (fun x => (problem? x).isNone) = before := by
  obtain ⟨after, rfl⟩ := first.split
  have sound : ∀ b ∈ before, (problem? b).isNone = true := by
    intro b hb
    rw [first.sound b hb]
    rfl
  rw [List.takeWhile_append_of_pos sound, List.takeWhile_cons_of_neg (by simp [first.here]),
    List.append_nil]

/-- Either no item makes a problem, or one is the first to do so. -/
theorem sound_or_firstProblem (problem? : α → Option Problem) (items : List α) :
    Sound problem? items ∨
      ∃ before item problem, FirstProblem problem? items before item problem := by
  cases search : items.findSome? problem? with
  | none => exact Or.inl (List.findSome?_eq_none_iff.mp search)
  | some problem =>
    obtain ⟨before, item, after, split, here, sound⟩ := List.findSome?_eq_some_iff.mp search
    exact Or.inr ⟨before, item, problem, ⟨after, split⟩, sound, here⟩

end Items

namespace Directives

/-- The problem with a directory that cannot be read. -/
def unreadable? (fs : FileSystem) (d : Directive) : Option Problem :=
  if fs.isDir (Path.ofString d.pattern) then
    match fs.headersBelow (Path.ofString d.pattern) with
    | .ok _ => none
    | .error fault => some (.cannotOpen d.pattern fault)
  else none

/-- The directives that the entries of some directives stand for. -/
def standIns (fs : FileSystem) (ds : List Directive) : List Directive :=
  ds.flatMap fun d => (standsFor fs d.pattern).map (⟨·, d.visibility⟩)

theorem expandEntry_eq (fs : FileSystem) (entry : String) (v : Visibility) :
    expandEntry fs entry =
      match unreadable? fs ⟨entry, v⟩ with
      | some problem => .error problem
      | none => .ok (standsFor fs entry) := by
  rw [expandEntry, unreadable?, standsFor]
  split
  · cases fs.headersBelow (Path.ofString entry) <;> rfl
  · rfl

theorem expandEntries_eq (fs : FileSystem) (entries : List String) (v : Visibility) :
    expandEntries fs entries =
      match (entries.map (⟨·, v⟩)).findSome? (unreadable? fs) with
      | some problem => .error problem
      | none => .ok (entries.flatMap (standsFor fs)) := by
  induction entries with
  | nil => rfl
  | cons entry entries ih =>
    rw [expandEntries, expandEntry_eq fs entry v, ih, List.map_cons, List.findSome?_cons]
    cases unreadable? fs ⟨entry, v⟩ with
    | some problem => rfl
    | none =>
      dsimp only
      cases (entries.map (⟨·, v⟩)).findSome? (unreadable? fs) <;> rfl

theorem expandClasses_eq (fs : FileSystem) (d done : Directives) (vs : List Visibility) :
    expandClasses fs d done vs =
      match (vs.flatMap fun v => (d.effective v).map (⟨·, v⟩)).findSome? (unreadable? fs) with
      | some problem => .error problem
      | none => .ok (vs.foldl
          (fun done v => done.set v ((d.effective v).flatMap (standsFor fs))) done) := by
  induction vs generalizing done with
  | nil => rfl
  | cons v vs ih =>
    rw [expandClasses, expandEntries_eq fs (d.effective v) v, List.flatMap_cons,
      List.findSome?_append]
    cases ((d.effective v).map (⟨·, v⟩)).findSome? (unreadable? fs) with
    | some problem => rfl
    | none => exact ih _

/-- Expansion fails with the first directory that cannot be read. -/
theorem expand_eq (fs : FileSystem) (d : Directives) :
    d.expand fs =
      match d.list.findSome? (unreadable? fs) with
      | some problem => .error problem
      | none => .ok (d.classes.foldl
          (fun done v => done.set v ((d.effective v).flatMap (standsFor fs))) empty) :=
  expandClasses_eq fs d empty d.classes

theorem effective_of_notMem_classes {d : Directives} {v : Visibility} (absent : v ∉ d.classes) :
    d.effective v = [] := by
  simp only [classes, List.mem_filter, Visibility.mem_all, true_and, Bool.or_eq_true, not_or,
    Bool.not_eq_true, Option.isSome_eq_false_iff, Option.isNone_iff_eq_none] at absent
  rw [effective, absent.1, absent.2]
  rfl

/-- Classes without a list have no directives, so they may be listed as well. -/
theorem list_eq (d : Directives) :
    d.list = Visibility.all.flatMap fun v => (d.effective v).map (⟨·, v⟩) := by
  have kept (v : Visibility) (other : ((d.explicit v).isSome || (d.defaults v).isSome) = false) :
      d.effective v = [] := by
    apply effective_of_notMem_classes
    simp [classes, other]
  rw [list, classes]
  induction Visibility.all with
  | nil => rfl
  | cons v vs ih =>
    rw [List.filter_cons, List.flatMap_cons, ← ih]
    cases has : ((d.explicit v).isSome || (d.defaults v).isSome) with
    | true => rfl
    | false =>
      rw [kept v has]
      rfl

theorem list_of_expand {fs : FileSystem} {d expanded : Directives}
    (ok : d.expand fs = .ok expanded) : expanded.list = standIns fs d.list := by
  simp only [list_eq, standIns, expand_ok ok, List.flatMap_assoc, List.flatMap_map,
    List.map_flatMap]

end Directives

namespace Extras

/-- The problem with an extra header that is missing. -/
def missing? (fs : FileSystem) (e : Visibility × String) : Option Problem :=
  if fs.isFile (Path.ofString e.2) then none else some (.missingFile e.2 e.1)

/-- The headers before the first missing one are added. -/
theorem appendEntries_eq (fs : FileSystem) (namer : IncludeNamer) (hs : List Header)
    (entries : List (Visibility × String)) :
    appendEntries fs namer hs entries =
      (hs ++ (entries.takeWhile fun e => (missing? fs e).isNone).map
          (fun e => header fs namer e.1 e.2),
        match entries.findSome? (missing? fs) with
        | some problem => .error problem
        | none => .ok ()) := by
  induction entries generalizing hs with
  | nil => simp [appendEntries]
  | cons e entries ih =>
    obtain ⟨v, entry⟩ := e
    rw [appendEntries]
    by_cases file : fs.isFile (Path.ofString entry) = true
    · have there : missing? fs (v, entry) = none := if_pos file
      rw [if_pos file, ih, List.takeWhile_cons_of_pos (by rw [there]; rfl), List.findSome?_cons,
        there, List.append_assoc]
      rfl
    · have absent : missing? fs (v, entry) = some (.missingFile entry v) := if_neg file
      rw [if_neg file, List.takeWhile_cons_of_neg (by simp [absent]), List.findSome?_cons, absent,
        List.map_nil, List.append_nil]

theorem append_of_sound {fs : FileSystem} {d : Directives} (sound : Sound (missing? fs) (entries d))
    (namer : IncludeNamer) (hs : List Header) :
    append fs namer d hs =
      (hs ++ (entries d).map fun e => header fs namer e.1 e.2, .ok ()) := by
  rw [append, appendEntries_eq, sound.takeWhile_eq, sound.findSome?_eq]

theorem append_of_firstProblem {fs : FileSystem} {d : Directives}
    {before : List (Visibility × String)} {e : Visibility × String} {problem : Problem}
    (first : FirstProblem (missing? fs) (entries d) before e problem) (namer : IncludeNamer)
    (hs : List Header) :
    append fs namer d hs =
      (hs ++ before.map fun e => header fs namer e.1 e.2, .error problem) := by
  rw [append, appendEntries_eq, first.takeWhile_eq, first.findSome?_eq]

end Extras

namespace Exclusion

instance (fs : FileSystem) (d : Directive) (id : FileId) : Decidable (d.Names fs id) :=
  decidable_of_iff _ Directive.names_iff.symm

instance (fs : FileSystem) (d : Directive) : Decidable (d.Dangles fs) :=
  decidable_of_iff _ Directive.dangles_iff.symm

/-- The problem with a file to exclude that is missing. -/
def dangling? (fs : FileSystem) (d : Directive) : Option Problem :=
  if d.Dangles fs then some (.noSuchHeaderFile d.pattern d.visibility) else none

/-- Some directive excludes the header: a glob by its path, or a file by its identity. -/
def Finds (fs : FileSystem) (ds : List Directive) (h : Header) : Prop :=
  (∃ d ∈ ds, d.Matches h) ∨ ∃ id ∈ fs.identity h.path, ∃ d ∈ ds, d.Names fs id

instance (fs : FileSystem) (ds : List Directive) (h : Header) : Decidable (Finds fs ds h) :=
  inferInstanceAs (Decidable (_ ∨ _))

/-- The sequence with every header flagged that some directive excludes. -/
def flagged (fs : FileSystem) (ds : List Directive) (hs : List Header) : List Header :=
  hs.map fun h => if Finds fs ds h then h.exclude else h

theorem flagged_raises (fs : FileSystem) (ds : List Directive) (h : Header) :
    h.RaisedTo (if Finds fs ds h then h.exclude else h) := by
  split
  · exact .exclude h
  · exact .refl h

theorem flagged_carried (fs : FileSystem) (ds : List Directive) (hs : List Header) :
    Carried hs (flagged fs ds hs) :=
  .map (flagged_raises fs ds) hs

/-- The warnings for the globs that match no header. -/
def idle (ds : List Directive) (hs : List Header) : List Warning :=
  (ds.filter fun d => d.IsGlob ∧ ∀ h ∈ hs, ¬ d.Matches h).map fun d => ⟨d.pattern, d.visibility⟩

theorem any_files_iff {fs : FileSystem} {ds : List Directive} {h : Header} :
    (fs.identity h.path).any (ds.filterMap (Directive.file? fs)).contains = true ↔
      ∃ id ∈ fs.identity h.path, ∃ d ∈ ds, d.Names fs id := by
  simp only [Option.any_eq_true, List.contains_iff_mem, List.mem_filterMap, Directive.names_iff,
    Option.mem_def]

/-- Exclusion fails with the first missing file and has flagged nothing by then. -/
theorem apply_eq (fs : FileSystem) (ds : List Directive) (hs : List Header) :
    apply fs ds hs =
      match ds.findSome? (dangling? fs) with
      | some problem => (hs, .error problem)
      | none => (flagged fs ds hs, .ok (idle ds hs)) := by
  cases read : compile fs ⟨[], []⟩ ds with
  | error problem =>
    obtain ⟨before, d, after, split, dangles, sounds, named⟩ := compile_error read
    have first : FirstProblem (dangling? fs) ds before d problem :=
      ⟨⟨after, split⟩, fun b hb => if_neg (sounds b hb), named ▸ if_pos dangles⟩
    rw [apply, read, first.findSome?_eq]
  | ok c =>
    obtain ⟨sounds, globs, files⟩ := compile_ok read
    have sound : Sound (dangling? fs) ds := fun d hd => if_neg (sounds d hd)
    rw [List.nil_append] at globs files
    rw [apply_of_compile read, sound.findSome?_eq, globs, warnings_after]
    refine Prod.ext ?_ rfl
    apply List.map_congr_left
    intro h _
    have found : (((ds.filterMap Directive.glob?).map Watch.start).any (·.glob.hits h) ||
        (fs.identity h.path).any c.files.contains) = true ↔ Finds fs ds h := by
      rw [Bool.or_eq_true, any_start_iff, files, any_files_iff]
      rfl
    rw [flagFile_flagHit, Bool.or_assoc]
    by_cases finds : Finds fs ds h
    · rw [if_pos finds, found.mpr finds, Bool.or_true]
      rfl
    · rw [if_neg finds, Bool.eq_false_iff.mpr (found.not.mpr finds), Bool.or_false]

end Exclusion

namespace Umbrella

/-- The problem with a class whose named umbrella header is missing, or whose name is too long to be
looked for; an empty name counts as none. -/
def lacking? (named : Visibility → Option String) (hs : List Header) (v : Visibility) :
    Option Problem :=
  match (named v).filter (· ≠ "") with
  | some entry =>
    if longestEntry < bytes entry ∨
        ∀ h ∈ hs, h.visibility = v → ¬ entry.toList <:+: h.path.chars then
      some (.noSuchUmbrella entry v)
    else none
  | none => none

variable {framework : Option String} {named : Visibility → Option String}

/-- Where headers stand and how they are flagged makes no class lack its umbrella header. -/
theorem lacking?_carried {before after : List Header} (carried : Carried before after)
    (v : Visibility) : lacking? named after v = lacking? named before v := by
  rw [lacking?, lacking?]
  cases (named v).filter (· ≠ "") with
  | none => rfl
  | some entry =>
    have same : (∃ h ∈ after, h.visibility = v ∧ entry.toList <:+: h.path.chars) ↔
        ∃ h ∈ before, h.visibility = v ∧ entry.toList <:+: h.path.chars := by
      apply carried.exists_iff
      intro h h' raised
      rw [raised.visibility, raised.path]
    have absent : (∀ h ∈ after, h.visibility = v → ¬ entry.toList <:+: h.path.chars) ↔
        ∀ h ∈ before, h.visibility = v → ¬ entry.toList <:+: h.path.chars := by
      simpa only [not_exists, not_and] using same.not
    simp only [absent]

theorem findIdx?_eq_none_of_given_iff {entry : String} {v : Visibility}
    (given : (named v).filter (· ≠ "") = some entry) {hs : List Header} :
    hs.findIdx? (fits framework v (named v)) = none ↔
      longestEntry < bytes entry ∨
        ∀ h ∈ hs, h.visibility = v → ¬ entry.toList <:+: h.path.chars := by
  obtain ⟨name, nonempty⟩ := filter_nonempty_eq_some_iff.mp given
  simp only [List.findIdx?_eq_none_iff, ← Bool.not_eq_true, fits_iff,
    satisfies_given_iff name nonempty, not_and]
  rw [← Nat.not_le, ← Decidable.imp_iff_not_or]
  constructor
  · intro missing small h mem visibility
    exact missing h mem visibility small
  · intro missing h mem visibility small
    exact missing small h mem visibility

/-- A class fails exactly if it lacks the umbrella header that is named for it. -/
theorem resolveClass_lacking? (framework : Option String) (named : Visibility → Option String)
    (hs : List Header) (v : Visibility) :
    match lacking? named hs v with
    | some problem => resolveClass framework v (named v) hs = (hs, .error problem)
    | none => ∃ hs' index, Carried hs hs' ∧
        resolveClass framework v (named v) hs = (hs', .ok index) := by
  rw [lacking?, resolveClass_eq]
  cases given : (named v).filter (· ≠ "") with
  | none =>
    cases search : hs.findIdx? (fits framework v (named v)) with
    | some found => exact ⟨_, _, promote_carried hs found, rfl⟩
    | none => exact ⟨hs, none, .refl hs, rfl⟩
  | some entry =>
    have search : hs.findIdx? (fits framework v (named v)) = none ↔ _ :=
      findIdx?_eq_none_of_given_iff given
    by_cases absent : longestEntry < bytes entry ∨
        ∀ h ∈ hs, h.visibility = v → ¬ entry.toList <:+: h.path.chars
    · simp only [if_pos absent, search.mpr absent]
    · obtain ⟨found, place⟩ := Option.ne_none_iff_exists'.mp (search.not.mpr absent)
      simp only [if_neg absent, place]
      exact ⟨_, _, promote_carried hs found, rfl⟩

/-- Where no class lacks its umbrella header, all are resolved. -/
theorem resolveClasses_of_sound (framework : Option String) {hs : List Header}
    {vs : List Visibility} (sound : Sound (lacking? named hs) vs) :
    ∃ final places, Carried hs final ∧
      resolveClasses framework named hs vs = (final, .ok places) := by
  induction vs generalizing hs with
  | nil => exact ⟨hs, [], .refl hs, rfl⟩
  | cons v vs ih =>
    have outcome := resolveClass_lacking? framework named hs v
    rw [sound v List.mem_cons_self] at outcome
    obtain ⟨hs', index, carried, step⟩ := outcome
    have later : Sound (lacking? named hs') vs := fun u hu =>
      (lacking?_carried carried u).trans (sound u (List.mem_cons_of_mem v hu))
    obtain ⟨final, places, carriedOn, resolved⟩ := ih later
    refine ⟨final, (index.map (v, ·)).toList ++ places, carried.trans carriedOn, ?_⟩
    rw [resolveClasses, step]
    simp only [resolved]
    rfl

/-- The first class that lacks its umbrella header ends the resolution, and the classes before it
are resolved. -/
theorem resolveClasses_of_firstProblem {framework : Option String} {hs mid : List Header}
    {vs before : List Visibility} {v : Visibility} {problem : Problem}
    (first : FirstProblem (lacking? named hs) vs before v problem)
    {places : List (Visibility × Nat)}
    (resolved : resolveClasses framework named hs before = (mid, .ok places)) :
    resolveClasses framework named hs vs = (mid, .error problem) := by
  obtain ⟨⟨after, rfl⟩, sound, here⟩ := first
  induction before generalizing hs places with
  | nil =>
    cases resolved
    have step := resolveClass_lacking? framework named mid v
    rw [here] at step
    rw [List.nil_append, resolveClasses, step]
  | cons u before ih =>
    have outcome := resolveClass_lacking? framework named hs u
    rw [sound u List.mem_cons_self] at outcome
    obtain ⟨hs', index, carried, step⟩ := outcome
    obtain ⟨rest, resolvedRest, _⟩ := resolveClasses_cons_ok step resolved
    have later := ih resolvedRest
      (fun w hw => (lacking?_carried carried w).trans (sound w (List.mem_cons_of_mem u hw)))
      ((lacking?_carried carried v).trans here)
    rw [List.cons_append, resolveClasses, step]
    simp only [later]
    rfl

end Umbrella

end LibraryHeaders
