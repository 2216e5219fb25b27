import LibraryHeaders.Proofs.FileSystem.Walk
import Mathlib.Data.List.Permutation

/-!
# The header files below a directory

Where the header files below a path can be listed, the list holds exactly the paths along which the
walk finds one, each once and in the order of their names.
-/

namespace LibraryHeaders.Host

variable {h : Host} {root : Path} {q : Position} {names more : List Name}

/-- The walk goes along names that entries have. -/
theorem Finds.plain (wf : h.WellFormed) (finds : h.Finds root names more) :
    ∀ n ∈ more, n.IsPlain := by
  intro n mem
  obtain ⟨before, after, rfl⟩ := List.append_of_mem mem
  have cut : before ++ [n] <+: before ++ n :: after := ⟨after, by simp⟩
  obtain ⟨dir, e, -, entry⟩ := (finds.goesOn before n cut).entry
  exact wf.tree.plain_of_at? entry n (by simp)

/-- A walk that begins at a root is inside of it only. -/
theorem inside_root (wf : h.WellFormed) (leads : h.LeadsTo root q .dir) :
    h.Inside root (h.tree.directories.erase q) q [] := by
  have distinct := wf.tree.directories_distinct
  refine ⟨leads, distinct.erase q, ?_⟩
  intro x
  rw [distinct.mem_erase_iff, wf.tree.mem_directories_iff, and_comm]
  refine and_congr_right fun _ => ?_
  constructor
  · intro other earlier cut leads'
    rw [List.prefix_nil.mp cut] at leads'
    exact other (leads.unique leads').1
  · rintro outside rfl
    exact outside [] List.prefix_rfl leads

/-- A file is found itself if it is a header file, and nothing below it. -/
theorem finds_root_iff {i : Nat} (leads : h.LeadsTo root q (.file i)) :
    h.Finds root [] names ↔ names = [] ∧ root.isHeader = true := by
  rw [Path.isHeader_iff]
  constructor
  · intro finds
    cases names with
    | nil => exact ⟨rfl, finds.header⟩
    | cons n names =>
      obtain ⟨dir, e, leads', -⟩ := (finds_cons_iff.mp finds).1.entry
      exact absurd leads' leads.not_dir
  · rintro ⟨rfl, header⟩
    refine ⟨?_, ⟨q, i, leads⟩, header⟩
    intro before n cut
    exact absurd (List.prefix_nil.mp cut) (List.concat_ne_nil _ _)

/-- Paths below one root are in the order of the names that lead to them. -/
theorem pairwise_names_below (nonempty : root.bytes ≠ []) {paths : List (List Name)}
    (plain : ∀ ns ∈ paths, ∀ n ∈ ns, n.IsPlain) (sorted : paths.Pairwise (· < ·)) :
    (paths.map root.below).Pairwise fun p p' => p.names < p'.names := by
  rw [List.pairwise_map]
  refine sorted.imp_of_mem ?_
  intro ns ns' mem mem' lt
  rw [Path.names_below nonempty (plain ns mem), Path.names_below nonempty (plain ns' mem')]
  exact List.append_left_lt lt

/-- The header files below a path, where they can be listed: every path along which entries lead
that are not hidden, through directories and to a header file, without a link back to a directory on
the way. No path is listed twice, and they are in strictly increasing order, name by name and byte
by byte. A path that leads to a file is listed itself if it is that of a header file. -/
theorem headersBelow_exact (wf : h.WellFormed) {path : Path} {found : List Path}
    (listed : h.fileSystem.headersBelow path = .ok found) :
    found.Pairwise (fun p p' => p.names < p'.names) ∧
      ∀ p, p ∈ found ↔
        ∃ names, p = (h.anchor path).below names ∧ h.Finds (h.anchor path) [] names := by
  change h.headersBelow path = .ok found at listed
  rw [headersBelow] at listed
  generalize h.anchor path = root at listed ⊢
  have leads := h.lookup_spec root
  split at listed
  · cases listed
  · rename_i q i result
    rw [result] at leads
    cases listed
    simp only [finds_root_iff leads]
    split
    · rename_i header
      refine ⟨List.pairwise_singleton _ _, fun p => ?_⟩
      rw [List.mem_singleton]
      constructor
      · rintro rfl
        exact ⟨[], rfl, rfl, header⟩
      · rintro ⟨_, rfl, rfl, -⟩
        rfl
    · rename_i other
      refine ⟨List.Pairwise.nil, fun p => iff_of_false List.not_mem_nil ?_⟩
      rintro ⟨_, -, -, header⟩
      exact other header
  · rename_i q result
    rw [result] at leads
    cases walked : h.walk root (h.tree.directories.erase q) q [] with
    | error fault =>
      rw [walked] at listed
      cases listed
    | ok paths =>
      rw [walked] at listed
      cases listed
      have lists := walk_lists wf root _ q [] (inside_root wf leads) walked
      have below (ns : List Name) : ns ∈ paths ↔ h.Finds root [] ns := by
        rw [lists.mem_iff]
        constructor
        · rintro ⟨more, -, rfl, finds⟩
          exact finds
        · intro finds
          refine ⟨ns, ?_, rfl, finds⟩
          rintro rfl
          obtain ⟨q', i, toFile⟩ := finds.file
          exact toFile.not_dir leads
      constructor
      · refine pairwise_names_below leads.1 ?_ (Name.pairwise_lt_mergeSort lists.distinct)
        intro ns mem
        exact ((below ns).mp (List.mem_mergeSort.mp mem)).plain wf
      · intro p
        simp only [List.mem_map, List.mem_mergeSort, below]
        constructor
        · rintro ⟨ns, finds, rfl⟩
          exact ⟨ns, rfl, finds⟩
        · rintro ⟨ns, rfl, finds⟩
          exact ⟨ns, finds, rfl⟩

/-- Header files with a second name. One link leads out of the directory, and from there the way
leads in again; others lead back or nowhere. -/
def fooHost : Host where
  tree :=
    { entries :=
        [("w", .dir), ("w/inc", .dir), ("w/inc/a.h", .file 0), ("w/inc/.old.h", .file 1),
          ("w/inc/gone.h", .link (.ofString "lost")), ("w/inc/back", .link (.ofString ".")),
          ("w/inc/sub", .dir), ("w/inc/sub/b.hpp", .file 0),
          ("w/inc/sub/out", .link (.ofString "../.."))].map fun e =>
            ((Path.ofString e.1).parts, e.2)
      contents := [[], []] }
  current := []
  workingDir := some (.ofString "w")

def fooFound : List Path :=
  ["w/inc/a.h", "w/inc/sub/b.hpp", "w/inc/sub/out/inc/a.h", "w/inc/sub/out/inc/sub/b.hpp"].map
    Path.ofString

theorem fooHost_headersBelow :
    fooHost.WellFormed ∧ fooHost.fileSystem.headersBelow (.ofString "inc") = .ok fooFound ∧
      fooFound.Pairwise (fun p p' => p.names < p'.names) ∧
      ∀ p, p ∈ fooFound ↔ ∃ names, p = (fooHost.anchor (.ofString "inc")).below names ∧
        fooHost.Finds (fooHost.anchor (.ofString "inc")) [] names := by
  have plain : ∀ e ∈ fooHost.tree.entries, ∀ n ∈ e.1, n.IsOrdinary ∧ Path.slash ∉ n := by decide
  have wf : fooHost.WellFormed :=
    ⟨⟨by decide, fun e mem n ofEntry => ⟨(plain e mem n ofEntry).1, (plain e mem n ofEntry).2⟩,
      by decide⟩, rfl⟩
  have listed : fooHost.fileSystem.headersBelow (.ofString "inc") = .ok fooFound := by cbv
  exact ⟨wf, listed, headersBelow_exact wf listed⟩

end LibraryHeaders.Host
