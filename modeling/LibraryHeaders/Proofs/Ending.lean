import LibraryHeaders.Proofs.Stages

/-!
# How a resolution ends

A resolution ends at the first stage in which some item makes a problem, with that problem, or it
comes through all stages. `Ends` lists the five endings and says for each of them what is handed
back, as a function of the context and of the sequence that was given. One of the endings always
applies, and it is the one that the resolution has.
-/

namespace LibraryHeaders.Context

/-- The entries that add headers, every directory replaced by the header files below it. -/
def extraEntries (c : Context) : List (Visibility × String) :=
  Visibility.concrete.flatMap fun v =>
    ((c.extra.effective v).flatMap (Directives.standsFor c.fs)).map (v, ·)

/-- The directives that exclude headers, every directory replaced by the header files below it. -/
def exclusions (c : Context) : List Directive := Directives.standIns c.fs c.exclude.list

/-- The sequence with all extra headers behind it. -/
def built (c : Context) (base : List Header) : List Header := base ++ c.extraHeaders

/-- The sequence with all extra headers behind it and every header flagged that is excluded. -/
def flagged (c : Context) (base : List Header) : List Header :=
  Exclusion.flagged c.fs c.exclusions (c.built base)

/-- The warnings for the globs that match none of these headers. -/
def unmatched (c : Context) (base : List Header) : List Warning :=
  Exclusion.idle c.exclusions (c.built base)

/-- Every directory among the directives can be read. -/
def Readable (c : Context) : Prop :=
  Sound (Directives.unreadable? c.fs) (c.extra.list ++ c.exclude.list)

/-- The endings of the resolution of a sequence. -/
inductive Ends (c : Context) (base : List Header) : Except Failure Resolution → Prop where
  /-- A directory cannot be read: among the extra headers, or else among the exclusions. -/
  | directories {before : List Directive} {d : Directive} {problem : Problem}
      (first : FirstProblem (Directives.unreadable? c.fs) (c.extra.list ++ c.exclude.list) before d
        problem) :
      Ends c base (.error ⟨problem, .directives, base, []⟩)
  /-- An extra header is missing; those before it have been added. -/
  | build {before : List (Visibility × String)} {e : Visibility × String} {problem : Problem}
      (readable : c.Readable)
      (first : FirstProblem (Extras.missing? c.fs) c.extraEntries before e problem) :
      Ends c base (.error ⟨problem, .build,
        base ++ before.map fun e => Extras.header c.fs c.namer e.1 e.2, []⟩)
  /-- A file to exclude is missing; no header has been flagged. -/
  | exclude {before : List Directive} {d : Directive} {problem : Problem} (readable : c.Readable)
      (complete : Sound (Extras.missing? c.fs) c.extraEntries)
      (first : FirstProblem (Exclusion.dangling? c.fs) c.exclusions before d problem) :
      Ends c base (.error ⟨problem, .exclude, c.built base, []⟩)
  /-- A class lacks its umbrella header; the classes before it have been resolved. -/
  | umbrella {before : List Visibility} {v : Visibility} {problem : Problem}
      {reached : List Header} {places : List (Visibility × Nat)} (readable : c.Readable)
      (complete : Sound (Extras.missing? c.fs) c.extraEntries)
      (grounded : Sound (Exclusion.dangling? c.fs) c.exclusions)
      (first : FirstProblem (Umbrella.lacking? c.umbrella (c.flagged base)) Visibility.concrete
        before v problem)
      (resolved : Umbrella.resolveClasses c.framework c.umbrella (c.flagged base) before =
        (reached, .ok places)) :
      Ends c base (.error ⟨problem, .umbrella, reached, c.unmatched base⟩)
  | success {final : List Header} {places : List (Visibility × Nat)} (readable : c.Readable)
      (complete : Sound (Extras.missing? c.fs) c.extraEntries)
      (grounded : Sound (Exclusion.dangling? c.fs) c.exclusions)
      (served : Sound (Umbrella.lacking? c.umbrella (c.flagged base)) Visibility.concrete)
      (resolved : Umbrella.resolve c.framework c.umbrella (c.flagged base) = (final, .ok places)) :
      Ends c base (.ok ⟨final, c.unmatched base⟩)

variable {c : Context} {base : List Header}

theorem extraHeaders_eq (c : Context) :
    c.extraHeaders = c.extraEntries.map fun e => Extras.header c.fs c.namer e.1 e.2 := by
  rw [extraHeaders, extraEntries, List.map_flatMap]
  simp only [List.map_map, Function.comp_def]

theorem entries_of_expand {extra : Directives} (expanded : c.extra.expand c.fs = .ok extra) :
    Extras.entries extra = c.extraEntries := by
  simp only [Extras.entries, extraEntries, Directives.expand_ok expanded]

/-- Where all directories can be read, both expansions come through. -/
theorem Readable.expands (readable : c.Readable) :
    ∃ extra exclude, c.extra.expand c.fs = .ok extra ∧ c.exclude.expand c.fs = .ok exclude ∧
      Extras.entries extra = c.extraEntries ∧ exclude.list = c.exclusions := by
  obtain ⟨extraSound, excludeSound⟩ := List.forall_mem_append.mp readable
  have extraOk := Directives.expand_eq c.fs c.extra
  have excludeOk := Directives.expand_eq c.fs c.exclude
  rw [Sound.findSome?_eq extraSound] at extraOk
  rw [Sound.findSome?_eq excludeSound] at excludeOk
  exact ⟨_, _, extraOk, excludeOk, entries_of_expand extraOk, Directives.list_of_expand excludeOk⟩

/-- Where a directory cannot be read, one of the expansions fails. -/
theorem resolve_of_unreadable {before : List Directive} {d : Directive} {problem : Problem}
    (first : FirstProblem (Directives.unreadable? c.fs) (c.extra.list ++ c.exclude.list) before d
      problem) :
    c.resolve base = .error ⟨problem, .directives, base, []⟩ := by
  have search := first.findSome?_eq
  rw [List.findSome?_append] at search
  rw [resolve, Directives.expand_eq c.fs c.extra, Directives.expand_eq c.fs c.exclude]
  cases extra : c.extra.list.findSome? (Directives.unreadable? c.fs) with
  | some other =>
    rw [extra, Option.some_or] at search
    cases search
    rfl
  | none =>
    rw [extra, Option.none_or] at search
    rw [search]

theorem append_of_complete {extra : Directives} (entries : Extras.entries extra = c.extraEntries)
    (complete : Sound (Extras.missing? c.fs) c.extraEntries) :
    Extras.append c.fs c.namer extra base = (c.built base, .ok ()) := by
  rw [← entries] at complete
  rw [Extras.append_of_sound complete, built, extraHeaders_eq, entries]

/-- Up to the umbrella headers nothing fails. -/
theorem resolve_of_grounded (readable : c.Readable)
    (complete : Sound (Extras.missing? c.fs) c.extraEntries)
    (grounded : Sound (Exclusion.dangling? c.fs) c.exclusions) :
    c.resolve base =
      match Umbrella.resolve c.framework c.umbrella (c.flagged base) with
      | (final, .error problem) => .error ⟨problem, .umbrella, final, c.unmatched base⟩
      | (final, .ok _) => .ok ⟨final, c.unmatched base⟩ := by
  obtain ⟨extra, exclude, extraOk, excludeOk, entries, list⟩ := readable.expands
  have applied := Exclusion.apply_eq c.fs c.exclusions (c.built base)
  rw [grounded.findSome?_eq] at applied
  rw [resolve, extraOk, excludeOk]
  simp only [append_of_complete entries complete, list, applied]
  rfl

theorem resolve_of_ends {r : Except Failure Resolution} (ends : Ends c base r) :
    c.resolve base = r := by
  cases ends with
  | directories first => exact resolve_of_unreadable first
  | build readable first =>
    obtain ⟨extra, exclude, extraOk, excludeOk, entries, _⟩ := readable.expands
    rw [← entries] at first
    rw [resolve, extraOk, excludeOk]
    simp only [Extras.append_of_firstProblem first]
  | exclude readable complete first =>
    obtain ⟨extra, exclude, extraOk, excludeOk, entries, list⟩ := readable.expands
    have applied := Exclusion.apply_eq c.fs c.exclusions (c.built base)
    rw [first.findSome?_eq] at applied
    rw [resolve, extraOk, excludeOk]
    simp only [append_of_complete entries complete, list, applied]
  | umbrella readable complete grounded first resolved =>
    rw [resolve_of_grounded readable complete grounded, Umbrella.resolve,
      Umbrella.resolveClasses_of_firstProblem first resolved]
  | success readable complete grounded served resolved =>
    rw [resolve_of_grounded readable complete grounded, resolved]

/-- One of the endings always applies. -/
theorem exists_ends (c : Context) (base : List Header) : ∃ r, Ends c base r := by
  rcases sound_or_firstProblem (Directives.unreadable? c.fs) (c.extra.list ++ c.exclude.list) with
    readable | ⟨_, _, _, first⟩
  swap
  · exact ⟨_, .directories first⟩
  rcases sound_or_firstProblem (Extras.missing? c.fs) c.extraEntries with
    complete | ⟨_, _, _, first⟩
  swap
  · exact ⟨_, .build readable first⟩
  rcases sound_or_firstProblem (Exclusion.dangling? c.fs) c.exclusions with
    grounded | ⟨_, _, _, first⟩
  swap
  · exact ⟨_, .exclude readable complete first⟩
  rcases sound_or_firstProblem (Umbrella.lacking? c.umbrella (c.flagged base))
    Visibility.concrete with served | ⟨before, v, problem, first⟩
  · obtain ⟨final, places, _, resolved⟩ := Umbrella.resolveClasses_of_sound c.framework served
    exact ⟨_, .success readable complete grounded served resolved⟩
  · obtain ⟨reached, places, _, resolved⟩ :=
      Umbrella.resolveClasses_of_sound c.framework first.sound
    exact ⟨_, .umbrella readable complete grounded first resolved⟩

/-- A resolution has the ending that applies: it fails in the first stage in which something makes a
problem, with that problem and with the sequence as that stage leaves it, and it succeeds if nothing
does. -/
theorem resolve_eq_iff_ends (c : Context) (base : List Header) (r : Except Failure Resolution) :
    c.resolve base = r ↔ Ends c base r := by
  constructor
  · rintro rfl
    obtain ⟨r, ends⟩ := exists_ends c base
    rwa [resolve_of_ends ends]
  · exact resolve_of_ends

end LibraryHeaders.Context
