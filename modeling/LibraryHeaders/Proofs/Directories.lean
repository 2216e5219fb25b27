import LibraryHeaders.Proofs.FileSystem.Listed
import LibraryHeaders.Proofs.Glob.Reading
import LibraryHeaders.Proofs.Stages
import LibraryHeaders.Proofs.Utf8

/-!
# Directories among the directives

A directory among the directives stands for the header files below it. Their paths are shown as
text and read once more, as if they had been written out: a text with a star is read as a glob, the
text of a path that is no text leads elsewhere, and what a relative working directory was put before
is seen from that directory again. Where none of this happens, a directory among the exclusions
excludes the files below it, and a directory among the extra headers adds them.
-/

namespace LibraryHeaders

namespace Directives

variable {fs : FileSystem} {d : Directives} {entry : String} {c : Visibility} {found : List Path}

/-- A directory that is the only entry is replaced by the header files below it. -/
theorem expand_directory (only : d.list = [⟨entry, c⟩])
    (isDir : fs.isDir (Path.ofString entry) = true)
    (listed : fs.headersBelow (Path.ofString entry) = .ok found) :
    ∃ expanded, d.expand fs = .ok expanded ∧
      expanded.list = found.map fun p => ⟨p.text, c⟩ := by
  have readable : unreadable? fs ⟨entry, c⟩ = none := by
    rw [unreadable?, if_pos isDir, listed]
  have expands := expand_eq fs d
  rw [only, List.findSome?_singleton, readable] at expands
  refine ⟨_, expands, ?_⟩
  rw [list_of_expand expands, only, standIns, List.flatMap_singleton, standsFor, if_pos isDir,
    listed]
  exact List.map_map

end Directives

/-- The entries that add headers are the directives of the classes that a header can carry. -/
theorem Extras.entries_eq (d : Directives) :
    entries d =
      (d.list.filter (·.visibility.isConcrete)).map fun x => (x.visibility, x.pattern) := by
  have part (v : Visibility) :
      (((d.effective v).map (Directive.mk · v)).filter (·.visibility.isConcrete)).map
          (fun x => (x.visibility, x.pattern)) =
        if v.isConcrete then (d.effective v).map (v, ·) else [] := by
    cases concrete : v.isConcrete <;> simp [List.filter_map, Function.comp_def, concrete]
  rw [entries, Directives.list_eq, List.filter_flatMap, List.map_flatMap]
  simp only [part]
  rfl

namespace Exclusion

variable {fs : FileSystem} {ds : List Directive}

/-- Flagging changes nothing but the flag of the headers that some directive finds. -/
theorem flagged_exactly (fs : FileSystem) (ds : List Directive) (hs : List Header) :
    List.Forall₂ (fun x x' => x' = { x with isExcluded := x'.isExcluded } ∧
      (x'.isExcluded = true ↔ x.isExcluded = true ∨ Finds fs ds x)) hs (flagged fs ds hs) := by
  rw [flagged, List.forall₂_map_right_iff, List.forall₂_same]
  intro x _
  by_cases finds : Finds fs ds x
  · rw [if_pos finds]
    exact ⟨rfl, iff_of_true rfl (Or.inr finds)⟩
  · rw [if_neg finds]
    exact ⟨rfl, (or_iff_left finds).symm⟩

/-- Directives that name files and are no globs make no problem and no warning. -/
theorem apply_of_names (named : ∀ d ∈ ds, ∃ id, d.Names fs id) (hs : List Header) :
    apply fs ds hs = (flagged fs ds hs, .ok []) := by
  have sound : Sound (dangling? fs) ds := by
    intro d mem
    obtain ⟨id, names⟩ := named d mem
    exact if_neg fun dangles => dangles.2 id names
  have quiet : idle ds hs = [] := by
    rw [idle, List.map_eq_nil_iff, List.filter_eq_nil_iff]
    intro d mem
    obtain ⟨id, names⟩ := named d mem
    simp [names.1]
  rw [apply_eq, sound.findSome?_eq, quiet]

/-- Directives that name files and are no globs find the headers that name one of these files. -/
theorem finds_iff_of_names (named : ∀ d ∈ ds, ∃ id, d.Names fs id) {x : Header} :
    Finds fs ds x ↔ ∃ d ∈ ds, ∃ id, d.Names fs id ∧ fs.identity x.path = some id := by
  have noMatch : ¬ ∃ d ∈ ds, d.Matches x := by
    rintro ⟨d, mem, g, glob, -⟩
    obtain ⟨id, names⟩ := named d mem
    exact names.1 ⟨g, glob⟩
  simp only [Finds, noMatch, false_or, Option.mem_def]
  constructor
  · rintro ⟨id, same, d, mem, names⟩
    exact ⟨d, mem, id, names, same⟩
  · rintro ⟨d, mem, id, names, same⟩
    exact ⟨id, same, d, mem, names⟩

end Exclusion

namespace Host

variable {h : Host} {d : Directives} {entry : String} {c : Visibility} {found : List Path}
  {p : Path} {q : Position} {i : Nat}

/-- The text of a path names the file that the path leads to, if it is the path and has no star. -/
theorem names_iff_of_lookup (file : h.lookup (h.anchor p) = .ok (q, .file i)) (text : p.IsText)
    (starless : '*' ∉ p.chars) {id : FileId} :
    Directive.Names h.fileSystem ⟨p.text, c⟩ id ↔ h.fileSystem.identity p = some id := by
  have same : Path.ofString p.text = p := Path.isText_iff.mp text
  have noGlob : ¬ Directive.IsGlob ⟨p.text, c⟩ := by
    have literal : Glob.ofPattern p.text c = .error .notAGlob := by
      rw [Glob.ofPattern_eq_notAGlob_iff, Path.text, String.toList_ofList]
      exact starless
    rintro ⟨g, glob⟩
    rw [literal] at glob
    cases glob
  rw [Directive.Names, same, and_iff_right noGlob, and_iff_right (isFile_iff.mpr ⟨q, i, file⟩)]

/-- A directory that is the only exclusion excludes exactly the headers, of whatever class, that
name one of the header files below it. -/
theorem directory_excludes_exactly (wf : h.WellFormed) (only : d.list = [⟨entry, c⟩])
    (isDir : h.fileSystem.isDir (.ofString entry) = true)
    (listed : h.fileSystem.headersBelow (.ofString entry) = .ok found)
    (once : h.AnchorsOnce (.ofString entry))
    (plain : ∀ p ∈ found, p.IsText ∧ '*' ∉ p.chars ∧ p.Fits) (base : List Header) :
    ∃ expanded final, d.expand h.fileSystem = .ok expanded ∧
      Exclusion.apply h.fileSystem expanded.list base = (final, .ok []) ∧
      List.Forall₂ (fun x x' => x' = { x with isExcluded := x'.isExcluded } ∧
        (x'.isExcluded = true ↔ x.isExcluded = true ∨ ∃ p ∈ found, ∃ id,
          h.fileSystem.identity p = some id ∧
            h.fileSystem.identity x.path = some id)) base final := by
  obtain ⟨expanded, ok, list⟩ := Directives.expand_directory only isDir listed
  have file : ∀ p ∈ found, ∃ q i, h.lookup (h.anchor p) = .ok (q, .file i) := by
    intro p mem
    refine lookup_anchor_of_listed wf isDir listed mem once ?_
    rw [anchor_of_listed wf isDir listed mem once]
    exact (plain p mem).2.2
  have names_iff : ∀ p ∈ found, ∀ id, Directive.Names h.fileSystem ⟨p.text, c⟩ id ↔
      h.fileSystem.identity p = some id := by
    intro p mem id
    obtain ⟨q, i, file⟩ := file p mem
    exact names_iff_of_lookup file (plain p mem).1 (plain p mem).2.1
  have named : ∀ x ∈ expanded.list, ∃ id, x.Names h.fileSystem id := by
    rw [list, List.forall_mem_map]
    intro p mem
    obtain ⟨q, i, file⟩ := file p mem
    exact ⟨_, (names_iff p mem _).mpr (identity_of_lookup file)⟩
  refine ⟨expanded, _, ok, Exclusion.apply_of_names named base, ?_⟩
  refine (Exclusion.flagged_exactly h.fileSystem expanded.list base).imp ?_
  rintro x x' ⟨onlyFlag, flag⟩
  refine ⟨onlyFlag, ?_⟩
  rw [flag, Exclusion.finds_iff_of_names named, list]
  simp only [List.mem_map, exists_exists_and_eq_and]
  refine or_congr_right (exists_congr fun p => and_congr_right fun mem => ?_)
  simp only [names_iff p mem]

/-- The files of `fooHost`, seen from an absolute working directory. -/
def absoluteHost : Host := { fooHost with workingDir := some (.ofString "/w") }

def absoluteFound : List Path :=
  ["/w/inc/a.h", "/w/inc/sub/b.hpp", "/w/inc/sub/out/inc/a.h", "/w/inc/sub/out/inc/sub/b.hpp"].map
    Path.ofString

theorem absoluteHost_wellFormed : absoluteHost.WellFormed := by decide

theorem absoluteHost_isDir : absoluteHost.fileSystem.isDir (.ofString "inc") = true := by cbv

theorem absoluteHost_headersBelow :
    absoluteHost.fileSystem.headersBelow (.ofString "inc") = .ok absoluteFound := by cbv

/-- Another spelling of a header file in the directory, and a hidden file. -/
def absoluteBase : List Header :=
  [.listed .priv (.ofString "inc/sub/../a.h"), .listed .pub (.ofString "inc/.old.h")]

theorem absoluteHost_inc_excluded :
    absoluteHost.WellFormed ∧ (Directives.empty.set .proj ["inc"]).list = [⟨"inc", .proj⟩] ∧
      absoluteHost.fileSystem.isDir (.ofString "inc") = true ∧
      absoluteHost.fileSystem.headersBelow (.ofString "inc") = .ok absoluteFound ∧
      ∃ expanded final,
        (Directives.empty.set .proj ["inc"]).expand absoluteHost.fileSystem = .ok expanded ∧
        Exclusion.apply absoluteHost.fileSystem expanded.list absoluteBase = (final, .ok []) ∧
        List.Forall₂ (fun x x' => x' = { x with isExcluded := x'.isExcluded } ∧
          (x'.isExcluded = true ↔ x.isExcluded = true ∨ ∃ p ∈ absoluteFound, ∃ id,
            absoluteHost.fileSystem.identity p = some id ∧
              absoluteHost.fileSystem.identity x.path = some id)) absoluteBase final :=
  ⟨absoluteHost_wellFormed, rfl, absoluteHost_isDir, absoluteHost_headersBelow,
    directory_excludes_exactly absoluteHost_wellFormed rfl absoluteHost_isDir
      absoluteHost_headersBelow (by decide) (by decide) absoluteBase⟩

/-- A header file whose name has a star. -/
def starHost : Host where
  tree :=
    { entries := [("inc", .dir), ("inc/a*.h", .file 0)].map fun e =>
        ((Path.ofString e.1).parts, e.2)
      contents := [[]] }
  current := []
  workingDir := none

/-- The header file in a directory is not excluded with it if the text of its path is a glob, which
speaks about headers of one class only. -/
theorem starHost_inc_not_excluded :
    starHost.WellFormed ∧ starHost.fileSystem.isDir (.ofString "/inc") = true ∧
      starHost.fileSystem.headersBelow (.ofString "/inc") = .ok [.ofString "/inc/a*.h"] ∧
      ∃ expanded, (Directives.empty.set .proj ["/inc"]).expand starHost.fileSystem = .ok expanded ∧
        Exclusion.apply starHost.fileSystem expanded.list [.listed .pub (.ofString "/inc/a*.h")] =
          ([.listed .pub (.ofString "/inc/a*.h")], .ok [⟨"/inc/a*.h", .proj⟩]) := by
  have isDir : starHost.fileSystem.isDir (.ofString "/inc") = true := by cbv
  have listed : starHost.fileSystem.headersBelow (.ofString "/inc") =
      .ok [.ofString "/inc/a*.h"] := by cbv
  obtain ⟨expanded, ok, list⟩ :=
    Directives.expand_directory (d := Directives.empty.set .proj ["/inc"]) rfl isDir listed
  refine ⟨by decide, isDir, listed, expanded, ok, ?_⟩
  have compiles : [Directive.mk "/inc/a*.h" .proj].findSome?
      (Exclusion.dangling? starHost.fileSystem) = none := by decide
  have passedOver : Exclusion.flagged starHost.fileSystem [⟨"/inc/a*.h", .proj⟩]
      [.listed .pub (.ofString "/inc/a*.h")] = [.listed .pub (.ofString "/inc/a*.h")] := by decide
  have idle : Exclusion.idle [⟨"/inc/a*.h", .proj⟩] [.listed .pub (.ofString "/inc/a*.h")] =
      [⟨"/inc/a*.h", .proj⟩] := by decide
  rw [list, List.map_singleton, Path.text_ofString, Exclusion.apply_eq, compiles, passedOver, idle]

/-- A directory that is the only extra entry of a class adds one header for each header file below
it, in their order; each has an absolute path that leads to this file. -/
theorem directory_adds_exactly (wf : h.WellFormed) (only : d.list = [⟨entry, c⟩])
    (concrete : c ∈ Visibility.concrete) (isDir : h.fileSystem.isDir (.ofString entry) = true)
    (listed : h.fileSystem.headersBelow (.ofString entry) = .ok found)
    (once : h.AnchorsOnce (.ofString entry))
    (plain : ∀ p ∈ found, p.IsText ∧ (h.absolute p).Fits) (namer : IncludeNamer)
    (base : List Header) :
    ∃ expanded, d.expand h.fileSystem = .ok expanded ∧
      Extras.append h.fileSystem namer expanded base =
        (base ++ found.map fun p => .extra c (h.absolute p) (namer (h.absolute p)), .ok ()) ∧
      ∀ p ∈ found, (h.absolute p).isAbsolute = true ∧ ∃ q i, h.LeadsTo p q (.file i) ∧
        h.fileSystem.identity (h.absolute p) = some (.number i) := by
  obtain ⟨expanded, ok, list⟩ := Directives.expand_directory only isDir listed
  have entries : Extras.entries expanded = found.map fun p => (c, p.text) := by
    rw [Extras.entries_eq, list, List.filter_eq_self.mpr, List.map_map]
    · rfl
    · rw [List.forall_mem_map]
      exact fun _ _ => Visibility.mem_concrete.mp concrete
  have same : ∀ p ∈ found, Path.ofString p.text = p := fun p mem =>
    Path.isText_iff.mp (plain p mem).1
  have file : ∀ p ∈ found, ∃ q i, h.lookup (h.anchor p) = .ok (q, .file i) := fun p mem =>
    lookup_anchor_of_listed wf isDir listed mem once (fits_of_absolute (plain p mem).2)
  have sound : Sound (Extras.missing? h.fileSystem) (Extras.entries expanded) := by
    rw [entries, Sound, List.forall_mem_map]
    intro p mem
    obtain ⟨q, i, file⟩ := file p mem
    rw [Extras.missing?, same p mem, if_pos (isFile_iff.mpr ⟨q, i, file⟩)]
  refine ⟨expanded, ok, ?_, ?_⟩
  · rw [Extras.append_of_sound sound, entries, List.map_map]
    refine Prod.ext (congrArg (base ++ ·) (List.map_congr_left fun p mem => ?_)) rfl
    rw [Function.comp_apply, Extras.header, same p mem]
    rfl
  · intro p mem
    obtain ⟨q, i, file⟩ := file p mem
    have absolute := h.isAbsolute_absolute p
    have leads := h.lookup_spec (h.anchor p)
    rw [file] at leads
    have nonempty := leads.1
    rw [anchor_of_listed wf isDir listed mem once] at leads
    have lookedUp : h.lookup (h.anchor (h.absolute p)) = .ok (q, .file i) := by
      rw [anchor_of_isAbsolute absolute, lookup_absolute wf nonempty (plain p mem).2, file]
    exact ⟨absolute, q, i, leads, identity_of_lookup lookedUp⟩

theorem absoluteHost_inc_added :
    absoluteHost.WellFormed ∧ (Directives.empty.set .pub ["inc"]).list = [⟨"inc", .pub⟩] ∧
      absoluteHost.fileSystem.isDir (.ofString "inc") = true ∧
      absoluteHost.fileSystem.headersBelow (.ofString "inc") = .ok absoluteFound ∧
      ∃ expanded,
        (Directives.empty.set .pub ["inc"]).expand absoluteHost.fileSystem = .ok expanded ∧
        Extras.append absoluteHost.fileSystem IncludeName.conventional expanded [] =
          ([] ++ absoluteFound.map fun p => .extra .pub (absoluteHost.absolute p)
            (IncludeName.conventional (absoluteHost.absolute p)), .ok ()) ∧
        ∀ p ∈ absoluteFound, (absoluteHost.absolute p).isAbsolute = true ∧
          ∃ q i, absoluteHost.LeadsTo p q (.file i) ∧
            absoluteHost.fileSystem.identity (absoluteHost.absolute p) = some (.number i) :=
  ⟨absoluteHost_wellFormed, rfl, absoluteHost_isDir, absoluteHost_headersBelow,
    directory_adds_exactly absoluteHost_wellFormed rfl (by decide) absoluteHost_isDir
      absoluteHost_headersBelow (by decide) (by decide) _ []⟩

/-- A header file in a directory that is seen from a relative working directory. -/
def relativeHost : Host := { linkHost [] with current := [], workingDir := some (.ofString "w") }

/-- A directory that is seen from a relative working directory is not added: the working directory
is put before the listed paths once more. -/
theorem relativeHost_inc_not_added :
    relativeHost.WellFormed ∧ relativeHost.fileSystem.isDir (.ofString "inc") = true ∧
      relativeHost.fileSystem.headersBelow (.ofString "inc") = .ok [.ofString "w/inc/a.h"] ∧
      ∃ expanded,
        (Directives.empty.set .pub ["inc"]).expand relativeHost.fileSystem = .ok expanded ∧
        Extras.append relativeHost.fileSystem IncludeName.conventional expanded [] =
          ([], .error (.missingFile "w/inc/a.h" .pub)) := by
  have isDir : relativeHost.fileSystem.isDir (.ofString "inc") = true := by cbv
  have listed : relativeHost.fileSystem.headersBelow (.ofString "inc") =
      .ok [.ofString "w/inc/a.h"] := by cbv
  obtain ⟨expanded, ok, list⟩ :=
    Directives.expand_directory (d := Directives.empty.set .pub ["inc"]) rfl isDir listed
  refine ⟨by decide, isDir, listed, expanded, ok, ?_⟩
  have missing : relativeHost.fileSystem.isFile (.ofString "w/inc/a.h") = false := by cbv
  rw [Extras.append, Extras.entries_eq, list, List.map_singleton, Path.text_ofString]
  exact if_neg (Bool.eq_false_iff.mp missing)

end Host

end LibraryHeaders
