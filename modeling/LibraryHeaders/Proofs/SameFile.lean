import LibraryHeaders.Proofs.Directories
import LibraryHeaders.Proofs.Ending

/-!
# One file under two spellings

An entry that adds a header is asked for as it is written, and the header that it adds carries the
path made absolute. The system answers the same about both, unless the absolute path is too long for
it; the names of the current directory are names that it takes, as in every tree that has been made.
So an entry that is among the extra headers and among the exclusions of one context excludes the
header that it adds itself.
-/

namespace LibraryHeaders

/-- Two paths that a file system does not tell apart, whatever it is asked about them. -/
structure FileSystem.Alike (fs : FileSystem) (p p' : Path) : Prop where
  isFile : fs.isFile p = fs.isFile p'
  isDir : fs.isDir p = fs.isDir p'
  identity : fs.identity p = fs.identity p'
  read : fs.read p = fs.read p'

namespace Context

/-- Apart from one entry, no directive makes a problem before umbrella headers are designated. -/
structure SoundApartFrom (c : Context) (entry : String) : Prop where
  readable : c.Readable
  extras : ∀ e ∈ c.extraEntries, e.2 ≠ entry → Extras.missing? c.fs e = none
  exclusions : ∀ d ∈ c.exclusions, d.pattern ≠ entry → Exclusion.dangling? c.fs d = none

/-- Build and exclusion come through and leave these sequences, so that only the designation of
umbrella headers can fail. -/
structure ReachesUmbrella (c : Context) (base built flagged : List Header) : Prop where
  stages : ∃ extra exclude warnings,
    c.extra.expand c.fs = .ok extra ∧ c.exclude.expand c.fs = .ok exclude ∧
      Extras.append c.fs c.namer extra base = (built, .ok ()) ∧
      Exclusion.apply c.fs exclude.list built = (flagged, .ok warnings)
  late : ∀ f, c.resolve base = .error f → f.stage = .umbrella

variable {c : Context} {entry : String} {v w : Visibility} {base : List Header}

theorem standsFor_of_not_isDir (notDir : c.fs.isDir (.ofString entry) = false) :
    Directives.standsFor c.fs entry = [entry] := by
  rw [Directives.standsFor, notDir]
  rfl

theorem mem_extraEntries (notDir : c.fs.isDir (.ofString entry) = false)
    (concrete : v ∈ Visibility.concrete) (mem : entry ∈ c.extra.effective v) :
    (v, entry) ∈ c.extraEntries := by
  refine List.mem_flatMap.mpr ⟨v, concrete, List.mem_map_of_mem ?_⟩
  refine List.mem_flatMap.mpr ⟨entry, mem, ?_⟩
  rw [standsFor_of_not_isDir notDir]
  exact List.mem_singleton_self entry

theorem mem_exclusions (notDir : c.fs.isDir (.ofString entry) = false)
    (mem : entry ∈ c.exclude.effective w) : (⟨entry, w⟩ : Directive) ∈ c.exclusions := by
  have listed : (⟨entry, w⟩ : Directive) ∈ c.exclude.list := by
    rw [Directives.list_eq]
    exact List.mem_flatMap.mpr ⟨w, Visibility.mem_all w, List.mem_map_of_mem mem⟩
  refine List.mem_flatMap.mpr ⟨_, listed, ?_⟩
  rw [standsFor_of_not_isDir notDir]
  exact List.mem_singleton_self _

/-- An entry that is a file and names it makes no problem either. -/
theorem SoundApartFrom.sound (apart : c.SoundApartFrom entry)
    (isFile : c.fs.isFile (.ofString entry) = true)
    (named : ∀ w, ∃ id, Directive.Names c.fs ⟨entry, w⟩ id) :
    Sound (Extras.missing? c.fs) c.extraEntries ∧
      Sound (Exclusion.dangling? c.fs) c.exclusions := by
  constructor
  · rintro ⟨v, other⟩ mem
    by_cases same : other = entry
    · rw [same]
      exact if_pos isFile
    · exact apart.extras _ mem same
  · rintro ⟨other, w⟩ mem
    by_cases same : other = entry
    · obtain ⟨id, names⟩ := named w
      rw [same]
      exact if_neg fun dangles => dangles.2 id names
    · exact apart.exclusions _ mem same

theorem reachesUmbrella_of_sound (readable : c.Readable)
    (complete : Sound (Extras.missing? c.fs) c.extraEntries)
    (grounded : Sound (Exclusion.dangling? c.fs) c.exclusions) (base : List Header) :
    c.ReachesUmbrella base (c.built base) (c.flagged base) := by
  constructor
  · obtain ⟨extra, exclude, extraOk, excludeOk, entries, list⟩ := readable.expands
    refine ⟨extra, exclude, c.unmatched base, extraOk, excludeOk,
      append_of_complete entries complete, ?_⟩
    rw [list, Exclusion.apply_eq, grounded.findSome?_eq]
    rfl
  · intro f failed
    rw [resolve_of_grounded readable complete grounded] at failed
    split at failed
    · cases failed
      rfl
    · cases failed

/-- Designating umbrella headers takes no header away and lowers no flag. -/
theorem flagged_carried_handedBack (readable : c.Readable)
    (complete : Sound (Extras.missing? c.fs) c.extraEntries)
    (grounded : Sound (Exclusion.dangling? c.fs) c.exclusions) (base : List Header) :
    Carried (c.flagged base) (handedBack (c.resolve base)) := by
  have moved := Umbrella.resolveClasses_carried c.framework c.umbrella (c.flagged base)
    Visibility.concrete
  rw [← Umbrella.resolve] at moved
  rw [resolve_of_grounded readable complete grounded]
  generalize Umbrella.resolve c.framework c.umbrella (c.flagged base) = designated at moved ⊢
  obtain ⟨final, problem | _⟩ := designated
  · exact moved
  · exact moved

/-- The header that an entry adds stands at the place of the entry. -/
theorem getElem?_built {i : Nat} (place : c.extraEntries[i]? = some (v, entry)) :
    (c.built base)[base.length + i]? = some (Extras.header c.fs c.namer v entry) := by
  rw [built, extraHeaders_eq, List.getElem?_append_right (Nat.le_add_right _ _),
    Nat.add_sub_cancel_left, List.getElem?_map, place]
  rfl

theorem getElem?_flagged {i : Nat} (place : c.extraEntries[i]? = some (v, entry))
    (finds : Exclusion.Finds c.fs c.exclusions (Extras.header c.fs c.namer v entry)) :
    (c.flagged base)[base.length + i]? = some (Extras.header c.fs c.namer v entry).exclude := by
  rw [flagged, Exclusion.flagged, List.getElem?_map, getElem?_built place, Option.map_some,
    if_pos finds]

end Context

namespace Host

variable {h : Host} {p p' : Path} {entry : String} {c : Context} {v w : Visibility}

theorem isDir_eq_false_of_isFile (isFile : h.fileSystem.isFile p = true) :
    h.fileSystem.isDir p = false := by
  obtain ⟨q, i, file⟩ := isFile_iff.mp isFile
  simp only [fileSystem, file]

/-- The empty path names no file: at most it stands for the working directory. -/
theorem ne_nil_of_isFile (isFile : h.fileSystem.isFile p = true) : p.bytes ≠ [] := by
  intro empty
  obtain ⟨q, i, file⟩ := isFile_iff.mp isFile
  have leads : h.LeadsTo (h.anchor p) q (.file i) := by
    have spec := h.lookup_spec (h.anchor p)
    rwa [file] at spec
  have relative : p.isAbsolute = false := by rw [Path.isAbsolute, empty]; rfl
  have names : p.parts = [[]] := by rw [Path.parts, empty]; rfl
  rw [anchor] at leads
  split at leads
  · rename_i root _
    by_cases unset : root.bytes = []
    · refine leads.1 ?_
      rw [Path.join, relative, unset]
      exact empty
    · obtain ⟨d, -, onward⟩ := (Tree.leadsTo_join_iff unset relative).mp leads
      rw [names, Tree.leads_stay_iff (Or.inl rfl), Tree.leads_nil_iff] at onward
      cases onward.2
  · exact leads.1 empty

/-- Paths that the system looks up alike are alike in all that it tells about them. -/
theorem alike_of_lookup (same : h.lookup (h.anchor p) = h.lookup (h.anchor p')) :
    h.fileSystem.Alike p p' := by
  constructor <;> simp only [fileSystem, read, same]

/-- An entry that is a file and has no star names that file, whatever its class. -/
theorem names_of_isFile (starless : '*' ∉ entry.toList)
    (isFile : h.fileSystem.isFile (.ofString entry) = true) :
    ∃ id, h.fileSystem.identity (.ofString entry) = some id ∧
      ∀ w, Directive.Names h.fileSystem ⟨entry, w⟩ id := by
  obtain ⟨q, i, file⟩ := isFile_iff.mp isFile
  have identity := identity_of_lookup file
  refine ⟨.number i, identity, fun w => ?_⟩
  have noStar : '*' ∉ (Path.ofString entry).chars := by rwa [Path.chars_ofString]
  have names := (names_iff_of_lookup (c := w) file ⟨entry, rfl⟩ noStar).mpr identity
  rwa [Path.text_ofString] at names

/-- The header that is added for an entry is found by the exclusion of this entry. -/
theorem finds_of_entry (onHost : c.fs = h.fileSystem) (starless : '*' ∉ entry.toList)
    (isFile : c.fs.isFile (.ofString entry) = true)
    (alike : c.fs.Alike (c.fs.absolute (.ofString entry)) (.ofString entry))
    (excluded : entry ∈ c.exclude.effective w) :
    Exclusion.Finds c.fs c.exclusions (Extras.header c.fs c.namer v entry) := by
  have notDir : c.fs.isDir (.ofString entry) = false := by
    rw [onHost] at isFile ⊢
    exact isDir_eq_false_of_isFile isFile
  obtain ⟨id, identity, names⟩ : ∃ id, c.fs.identity (.ofString entry) = some id ∧
      ∀ w, Directive.Names c.fs ⟨entry, w⟩ id := by
    rw [onHost] at isFile ⊢
    exact names_of_isFile starless isFile
  refine Or.inr ⟨id, ?_, ⟨entry, w⟩, Context.mem_exclusions notDir excluded, names w⟩
  exact alike.identity.trans identity

/-- A path and the absolute path that is made of it stand for the same: the absolute path stays as
it is when it is made absolute again, and the file system does not tell the two apart. So where a
file is an extra header and an exclusion of one context, under whatever classes, and nothing else
makes a problem, build and exclusion come through, and every header that is added for the file is
excluded and remains so. -/
theorem absolute_stands_for_same (wf : h.WellFormed)
    (usable : ∀ n ∈ h.current, Tree.isUsable n = true) :
    (∀ p, (h.fileSystem.absolute p).isAbsolute = true ∧
      h.fileSystem.absolute (h.fileSystem.absolute p) = h.fileSystem.absolute p ∧
      (p.bytes ≠ [] → (h.fileSystem.absolute p).bytes.length ≤ Tree.longestPath →
        h.fileSystem.Alike (h.fileSystem.absolute p) p)) ∧
    ∀ (c : Context) (entry : String) (v w : Visibility) (base : List Header),
      c.fs = h.fileSystem → '*' ∉ entry.toList → c.fs.isFile (.ofString entry) = true →
      (c.fs.absolute (.ofString entry)).bytes.length ≤ Tree.longestPath →
      v ∈ Visibility.concrete → entry ∈ c.extra.effective v → entry ∈ c.exclude.effective w →
      c.SoundApartFrom entry →
      (∃ built flagged, c.ReachesUmbrella base built flagged ∧ (v, entry) ∈ c.extraEntries ∧
        ∀ i, c.extraEntries[i]? = some (v, entry) →
          built[base.length + i]? = some (Extras.header c.fs c.namer v entry) ∧
          flagged[base.length + i]? = some (Extras.header c.fs c.namer v entry).exclude) ∧
      ∃ x ∈ Context.handedBack (c.resolve base),
        x.path = c.fs.absolute (.ofString entry) ∧ x.visibility = v ∧ x.isExtra = true ∧
          x.isExcluded = true := by
  have alike : ∀ p : Path, p.bytes ≠ [] →
      (h.fileSystem.absolute p).bytes.length ≤ Tree.longestPath →
      h.fileSystem.Alike (h.fileSystem.absolute p) p := fun p nonempty fits =>
    alike_of_lookup (lookup_anchor_absolute wf usable nonempty fits)
  constructor
  · exact fun p => ⟨h.isAbsolute_absolute p, h.absolute_absolute p, alike p⟩
  intro c entry v w base onHost starless isFile fits concrete added excluded apart
  have notDir : c.fs.isDir (.ofString entry) = false := by
    rw [onHost] at isFile ⊢
    exact isDir_eq_false_of_isFile isFile
  have nonempty : (Path.ofString entry).bytes ≠ [] := by
    rw [onHost] at isFile
    exact ne_nil_of_isFile isFile
  have named : ∀ w, ∃ id, Directive.Names c.fs ⟨entry, w⟩ id := by
    rw [onHost] at isFile ⊢
    obtain ⟨id, -, names⟩ := names_of_isFile starless isFile
    exact fun w => ⟨id, names w⟩
  obtain ⟨complete, grounded⟩ := apart.sound isFile named
  have place := Context.mem_extraEntries notDir concrete added
  have finds : Exclusion.Finds c.fs c.exclusions (Extras.header c.fs c.namer v entry) := by
    refine finds_of_entry onHost starless isFile ?_ excluded
    rw [onHost] at fits ⊢
    exact alike _ nonempty fits
  refine ⟨⟨c.built base, c.flagged base,
    Context.reachesUmbrella_of_sound apart.readable complete grounded base, place,
    fun i here => ⟨Context.getElem?_built here, Context.getElem?_flagged here finds⟩⟩, ?_⟩
  obtain ⟨i, here⟩ := List.mem_iff_getElem?.mp place
  have flagged : (Extras.header c.fs c.namer v entry).exclude ∈ c.flagged base :=
    List.mem_of_getElem? (Context.getElem?_flagged here finds)
  obtain ⟨x, mem, raised⟩ :=
    (Context.flagged_carried_handedBack apart.readable complete grounded base).exists_raisedFrom
      flagged
  exact ⟨x, mem, raised.path, raised.visibility, raised.isExtra, raised.excluded rfl⟩

/-- `fooHost` with a program that runs in a directory and sees paths from another one, by way of a
link. -/
def innerHost : Host :=
  { fooHost with
    current := (Path.ofString "w/inc").parts
    workingDir := some (.ofString "back/sub") }

/-- One file is added and excluded, by way of a further link; another file is added, and a glob
excludes it. -/
def innerContext : Context :=
  { Context.ofFileSystem innerHost.fileSystem with
    extra := (Directives.empty.set .priv ["out/inc/./a.h"]).set .pub ["b.hpp"]
    exclude := (Directives.empty.set .proj ["out/inc/./a.h"]).set .pub ["**/*.hpp"] }

theorem innerHost_stands_for_same :
    innerHost.WellFormed ∧ (∀ n ∈ innerHost.current, Tree.isUsable n = true) ∧
      innerHost.fileSystem.Alike (.ofString "/w/inc/back/sub/../a.h") (.ofString "../a.h") ∧
      innerContext.SoundApartFrom "out/inc/./a.h" ∧
      (∃ built flagged, innerContext.ReachesUmbrella [] built flagged ∧
        (.priv, "out/inc/./a.h") ∈ innerContext.extraEntries ∧
        ∀ i, innerContext.extraEntries[i]? = some (.priv, "out/inc/./a.h") →
          built[0 + i]? = some (Extras.header innerContext.fs innerContext.namer .priv
            "out/inc/./a.h") ∧
          flagged[0 + i]? = some (Extras.header innerContext.fs innerContext.namer .priv
            "out/inc/./a.h").exclude) ∧
      ∃ x ∈ Context.handedBack (innerContext.resolve []),
        x.path = .ofString "/w/inc/back/sub/out/inc/./a.h" ∧ x.visibility = .priv ∧
          x.isExtra = true ∧ x.isExcluded = true := by
  have wf : innerHost.WellFormed := by decide
  have usable : ∀ n ∈ innerHost.current, Tree.isUsable n = true := by decide
  have isFile : innerContext.fs.isFile (.ofString "out/inc/./a.h") = true := by cbv
  have apart : innerContext.SoundApartFrom "out/inc/./a.h" := by
    constructor
    · have files : innerContext.extra.list ++ innerContext.exclude.list =
          [⟨"b.hpp", .pub⟩, ⟨"out/inc/./a.h", .priv⟩, ⟨"**/*.hpp", .pub⟩,
            ⟨"out/inc/./a.h", .proj⟩] := by decide
      rw [Context.Readable, Sound, files]
      decide
    · decide
    · decide
  obtain ⟨paths, contexts⟩ := absolute_stands_for_same wf usable
  obtain ⟨reached, excluded⟩ := contexts innerContext "out/inc/./a.h" .priv .proj [] rfl (by decide)
    isFile (by decide) (by decide) (by decide) (by decide) apart
  exact ⟨wf, usable, (paths (.ofString "../a.h")).2.2 (by decide) (by decide), apart, reached,
    excluded⟩

end Host

end LibraryHeaders
