import LibraryHeaders.FileSystem.Table
import LibraryHeaders.Proofs.Ending
import LibraryHeaders.Proofs.Independence
import LibraryHeaders.Proofs.Rerun

/-!
# Resolved sets stay as they are

Where no directive adds headers, resolving the headers of a resolution gives this resolution again.
The second resolution flags nothing new: flagging can be moved before the designation of the first,
where it meets headers that are flagged already. It moves nothing, because a second designation moves
nothing. And the globs that match no header are the same, because the headers are.
-/

namespace LibraryHeaders

namespace Exclusion

theorem flagged_flagged (fs : FileSystem) (ds : List Directive) (hs : List Header) :
    flagged fs ds (flagged fs ds hs) = flagged fs ds hs := by
  rw [flagged, flagged, List.map_map]
  apply List.map_congr_left
  intro h _
  have same : Finds fs ds h.exclude ↔ Finds fs ds h := Iff.rfl
  by_cases finds : Finds fs ds h
  · simp only [Function.comp_apply, if_pos finds, if_pos (same.mpr finds)]
    rfl
  · simp only [Function.comp_apply, if_neg finds]

end Exclusion

namespace Context

variable {c : Context} {base : List Header} {r : Resolution}

/-- What a resolution that succeeds has come through, and what it gives. -/
theorem success_of_resolve (resolved : c.resolve base = .ok r) :
    c.Readable ∧ Sound (Extras.missing? c.fs) c.extraEntries ∧
      Sound (Exclusion.dangling? c.fs) c.exclusions ∧ r.warnings = c.unmatched base ∧
      ∃ places, Umbrella.resolve c.framework c.umbrella (c.flagged base) =
        (r.headers, .ok places) := by
  obtain ⟨outcome, ends⟩ := exists_ends c base
  have same : outcome = .ok r := (resolve_of_ends ends).symm.trans resolved
  subst same
  cases ends with
  | success readable complete grounded _ designated =>
    exact ⟨readable, complete, grounded, rfl, _, designated⟩

theorem built_of_extraEntries_eq_nil (bare : c.extraEntries = []) (base : List Header) :
    c.built base = base := by
  rw [built, extraHeaders_eq, bare, List.map_nil, List.append_nil]

/-- Where the directives add no header, resolving what a resolution has given gives it again: the
same headers in the same order with the same flags, and the same warnings. -/
theorem resolve_resolved
    (bare : ∀ extra, c.extra.expand c.fs = .ok extra →
      ∀ v ∈ Visibility.concrete, extra.effective v = [])
    (resolved : c.resolve base = .ok r) : c.resolve r.headers = .ok r := by
  obtain ⟨readable, complete, grounded, warned, places, designated⟩ := success_of_resolve resolved
  obtain ⟨extra, _, expanded, _, entries, _⟩ := readable.expands
  have none : c.extraEntries = [] := by
    rw [← entries, Extras.entries, List.flatMap_eq_nil_iff]
    intro v concrete
    rw [bare extra expanded v concrete, List.map_nil]
  have final : r.headers = (Umbrella.resolve c.framework c.umbrella (c.flagged base)).1 := by
    rw [designated]
  have flagged : c.flagged r.headers = r.headers := by
    have before : c.flagged base = Exclusion.flagged c.fs c.exclusions base := by
      rw [Context.flagged, built_of_extraEntries_eq_nil none]
    rw [Context.flagged, built_of_extraEntries_eq_nil none, final, before]
    -- the second flagging is moved before the designation, right behind the first
    have moved := Exclusion.resolve_flagged c.fs c.exclusions c.framework c.umbrella
      (Exclusion.flagged c.fs c.exclusions base)
    rw [Exclusion.flagged_flagged] at moved
    exact (congrArg Prod.fst moved).symm
  have again : Umbrella.resolve c.framework c.umbrella r.headers = (r.headers, .ok places) := by
    have rerun := Umbrella.resolveClasses_again c.framework c.umbrella (c.flagged base)
      Visibility.concrete
    rw [← Umbrella.resolve, ← Umbrella.resolve, designated] at rerun
    exact rerun
  have warnings : c.unmatched r.headers = r.warnings := by
    have moved := Umbrella.resolveClasses_carried c.framework c.umbrella (c.flagged base)
      Visibility.concrete
    rw [← Umbrella.resolve, designated] at moved
    have carried := (Exclusion.flagged_carried c.fs c.exclusions (c.built base)).trans moved
    rw [warned, unmatched, unmatched, built_of_extraEntries_eq_nil none]
    exact Exclusion.idle_carried carried
  rw [resolve_of_grounded readable complete grounded, flagged, again, warnings]

/-- Two header files and an empty directory. -/
def fooFiles : FileTable :=
  ⟨Path.ofString "/S", [(Path.ofString "/S/a.h", some 1), (Path.ofString "/S/b.h", some 2)],
    [(Path.ofString "/S/more", .ok [])], []⟩

/-- Extra headers come from an empty directory. One glob matches, one does not, and one file is
excluded by its path. -/
def fooContext : Context :=
  { ofFileSystem fooFiles.fileSystem with
    framework := some "Foo"
    extra := Directives.empty.set .proj ["/S/more"]
    exclude := (Directives.empty.set .pub ["**/a.h", "**/*.hpp"]).set .priv ["/S/b.h"] }

def fooBase : List Header :=
  [.listed .pub (Path.ofString "/S/a.h"), .listed .priv (Path.ofString "/S/b.h"),
    .listed .pub (Path.ofString "/S/Foo.h")]

def fooResolution : Resolution :=
  ⟨[(Header.listed .pub (Path.ofString "/S/Foo.h")).designate,
      (Header.listed .priv (Path.ofString "/S/b.h")).exclude,
      (Header.listed .pub (Path.ofString "/S/a.h")).exclude],
    [⟨"**/*.hpp", .pub⟩]⟩

theorem fooResolution_resolved :
    (∀ extra, fooContext.extra.expand fooContext.fs = .ok extra →
      ∀ v ∈ Visibility.concrete, extra.effective v = []) ∧
      fooContext.resolve fooBase = .ok fooResolution ∧
      fooContext.resolve fooResolution.headers = .ok fooResolution := by
  have bare : ∀ extra, fooContext.extra.expand fooContext.fs = .ok extra →
      ∀ v ∈ Visibility.concrete, extra.effective v = [] := by
    rintro extra expanded v -
    rw [Directives.expand_ok expanded]
    cases v <;> decide
  have resolved : fooContext.resolve fooBase = .ok fooResolution := rfl
  exact ⟨bare, resolved, resolve_resolved bare resolved⟩

end Context

end LibraryHeaders
