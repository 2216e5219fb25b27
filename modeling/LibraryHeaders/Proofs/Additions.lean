import LibraryHeaders.Proofs.LoadedFileLists
import LibraryHeaders.Proofs.Stages

/-!
# Headers that are added

File lists and directives add headers behind a sequence and change nothing before them. What they
add is fresh: it has one of the classes that a header can carry, and no flag is raised. A file list
cannot give a header another class, because the reader of an entry accepts no other word.
-/

namespace LibraryHeaders

/-- A header as it is when it is added to a sequence. -/
inductive Header.Fresh : Header → Prop where
  | listed {v : Visibility} {path : Path} (concrete : v ∈ Visibility.concrete) :
      Fresh (.listed v path)
  | extra {v : Visibility} {path : Path} {includeName : Option String}
      (concrete : v ∈ Visibility.concrete) : Fresh (.extra v path includeName)

/-- Fresh headers stand behind a sequence that is otherwise as it was. -/
def Adds (before after : List Header) : Prop :=
  ∃ new : List Header, (∀ h ∈ new, h.Fresh) ∧ after = before ++ new

theorem Adds.refl (hs : List Header) : Adds hs hs :=
  ⟨[], fun _ hh => absurd hh List.not_mem_nil, (List.append_nil hs).symm⟩

theorem Adds.trans {a b c : List Header} (ab : Adds a b) (bc : Adds b c) : Adds a c := by
  obtain ⟨first, firstFresh, rfl⟩ := ab
  obtain ⟨second, secondFresh, rfl⟩ := bc
  refine ⟨first ++ second, ?_, List.append_assoc a first second⟩
  exact List.forall_mem_append.mpr ⟨firstFresh, secondFresh⟩

namespace FileList

/-- Every entry of a file list has a class that a header can carry. -/
theorem ofText_ok {s : List Char} {list : FileList} (ok : ofText s = .ok list) :
    ∀ e ∈ list.entries, e.1 ∈ Visibility.concrete := by
  obtain ⟨version, entries, holds, -, rfl⟩ := ofText_eq_ok_iff.mp ok
  exact List.forall_mem_map.mpr holds.concrete

theorem headers_fresh {entries : List (Visibility × Path)}
    (concrete : ∀ e ∈ entries, e.1 ∈ Visibility.concrete) :
    ∀ h ∈ (headers entries).1, h.Fresh := by
  induction entries with
  | nil => simp [headers]
  | cons e entries ih =>
    obtain ⟨v, path⟩ := e
    rw [headers]
    split
    · simp
    · obtain ⟨here, later⟩ := List.forall_mem_cons.mp concrete
      exact List.forall_mem_cons.mpr ⟨.listed here, ih later⟩

theorem append_adds (text : String) (origin : Path) (hs : List Header) :
    Adds hs (append text origin hs).1 := by
  rw [append]
  split
  · exact .refl hs
  · rename_i list read
    exact ⟨_, headers_fresh (ofText_ok read), rfl⟩

theorem listed_fresh (fs : FileSystem) (file : Path) : ∀ h ∈ listed fs file, h.Fresh := by
  rw [listed]
  cases fs.read file with
  | error fault => exact List.forall_mem_nil _
  | ok text =>
    obtain ⟨new, fresh, appended⟩ := append_adds text file []
    dsimp only
    rw [appended, List.nil_append]
    exact fresh

theorem load_fresh {fs : FileSystem} {files : List Path} {loaded : List Header}
    (ok : load fs files = .ok loaded) : ∀ h ∈ loaded, h.Fresh := by
  rw [load, loadBehind_eq] at ok
  cases search : files.findSome? (problem? fs) with
  | some problem =>
    rw [search] at ok
    cases ok
  | none =>
    rw [search] at ok
    cases ok
    exact List.forall_mem_flatMap.mpr fun file _ => listed_fresh fs file

end FileList

namespace Extras

theorem concrete_of_mem_entries {d : Directives} {e : Visibility × String} (he : e ∈ entries d) :
    e.1 ∈ Visibility.concrete := by
  obtain ⟨v, hv, he⟩ := List.mem_flatMap.mp he
  obtain ⟨entry, _, rfl⟩ := List.mem_map.mp he
  exact hv

theorem append_adds (fs : FileSystem) (namer : IncludeNamer) (d : Directives) (hs : List Header) :
    Adds hs (append fs namer d hs).1 := by
  rw [append, appendEntries_eq]
  refine ⟨_, ?_, rfl⟩
  intro h hh
  obtain ⟨e, he, rfl⟩ := List.mem_map.mp hh
  exact .extra (concrete_of_mem_entries (List.takeWhile_subset _ he))

theorem build_adds {fs : FileSystem} {namer : IncludeNamer} {d : Directives}
    {hs built : List Header} (ok : build fs namer d hs = .ok built) : Adds hs built := by
  have added := append_adds fs namer d hs
  rw [build] at ok
  generalize append fs namer d hs = result at added ok
  obtain ⟨after, problem | done⟩ := result
  · cases ok
  · cases ok
    exact added

end Extras

end LibraryHeaders
