import LibraryHeaders.Proofs.FileSystem.Leading
import Mathlib.Data.List.Nodup

/-!
# Well-formed trees

A list of entries is a tree if no two of them stand at one position, each stands in a directory, and
their names are names. In such a tree the entries of a directory are what stands one name further,
and every directory that a path leads to is one of the directories of the tree.
-/

namespace LibraryHeaders.Tree

structure WellFormed (t : Tree) : Prop where
  distinct : (t.entries.map Prod.fst).Nodup
  plain : ∀ e ∈ t.entries, ∀ n ∈ e.1, n.IsPlain
  housed : ∀ e ∈ t.entries, e.1 ≠ [] ∧ t.at? e.1.dropLast = some .dir

instance (t : Tree) : Decidable t.WellFormed :=
  decidable_of_iff ((t.entries.map Prod.fst).Nodup ∧ (∀ e ∈ t.entries, ∀ n ∈ e.1, n.IsPlain) ∧
      ∀ e ∈ t.entries, e.1 ≠ [] ∧ t.at? e.1.dropLast = some .dir)
    ⟨fun h => ⟨h.1, h.2.1, h.2.2⟩, fun h => ⟨h.distinct, h.plain, h.housed⟩⟩

variable {t : Tree} {p q dir : Position} {n : Name} {e : Entry} {k : Kind}

theorem isUsable_iff :
    isUsable n = true ↔ n.IsOrdinary ∧ n.length ≤ longestName ∧ (0 : UInt8) ∉ n := by
  simp only [isUsable, Name.IsOrdinary, Bool.and_eq_true, decide_eq_true_eq, Bool.not_eq_true',
    List.contains_eq_mem, decide_eq_false_iff_not, and_assoc]

@[simp]
theorem at?_nil (t : Tree) : t.at? [] = some .dir := if_pos rfl

theorem mem_entries_of_at? (below : p ≠ []) (here : t.at? p = some e) : (p, e) ∈ t.entries := by
  rw [at?, if_neg below] at here
  obtain ⟨entry, found, rfl⟩ := Option.map_eq_some_iff.mp here
  have same : entry.1 = p := by simpa using List.find?_some found
  rw [← same]
  exact List.mem_of_find?_eq_some found

/-- The entries of a directory stand in their order in the tree. -/
theorem map_children_sublist (t : Tree) (dir : Position) :
    ((t.children dir).map fun child => dir ++ [child.1]).Sublist (t.entries.map Prod.fst) := by
  rw [children]
  induction t.entries with
  | nil => exact List.Sublist.slnil
  | cons entry entries ih =>
    rw [List.filterMap_cons]
    split
    · exact ih.cons _
    · rename_i child found
      split at found
      · split at found
        · rename_i same
          cases found
          rw [List.map_cons, List.map_cons, same]
          exact ih.cons_cons _
        · cases found
      · cases found

namespace WellFormed

theorem at?_of_mem_entries (wf : t.WellFormed) (mem : (p, e) ∈ t.entries) : t.at? p = some e := by
  rw [at?, if_neg (wf.housed _ mem).1]
  cases search : t.entries.find? (·.1 = p) with
  | none => simpa using List.find?_eq_none.mp search _ mem
  | some entry =>
    have same : entry.1 = p := by simpa using List.find?_some search
    have equal := List.inj_on_of_nodup_map wf.distinct (List.mem_of_find?_eq_some search) mem same
    rw [equal]
    rfl

/-- What a directory holds is what stands one name further. -/
theorem mem_children_iff (wf : t.WellFormed) :
    (n, e) ∈ t.children dir ↔ t.at? (dir ++ [n]) = some e := by
  constructor
  · intro mem
    exact wf.at?_of_mem_entries (mem_children mem)
  · intro here
    have mem := mem_entries_of_at? (List.concat_ne_nil n dir) here
    refine List.mem_filterMap.mpr ⟨_, mem, ?_⟩
    simp

theorem children_distinct (wf : t.WellFormed) (dir : Position) :
    (t.children dir).Pairwise fun a b => a.1 ≠ b.1 := by
  have apart := List.pairwise_map.mp (wf.distinct.sublist (t.map_children_sublist dir))
  refine apart.imp ?_
  intro a b other same
  exact other (congrArg (fun n => dir ++ [n]) same)

theorem mem_directories_iff (wf : t.WellFormed) : p ∈ t.directories ↔ t.at? p = some .dir := by
  rw [directories, List.mem_cons, List.mem_filterMap]
  constructor
  · rintro (rfl | ⟨entry, mem, dir⟩)
    · exact t.at?_nil
    · split at dir
      · rename_i isDir
        cases dir
        exact wf.at?_of_mem_entries (isDir ▸ mem)
      · cases dir
  · intro here
    by_cases root : p = []
    · exact Or.inl root
    · exact Or.inr ⟨_, mem_entries_of_at? root here, if_pos rfl⟩

theorem directories_distinct (wf : t.WellFormed) : t.directories.Nodup := by
  rw [directories, List.nodup_cons]
  constructor
  · intro mem
    obtain ⟨entry, mem, dir⟩ := List.mem_filterMap.mp mem
    split at dir
    · exact (wf.housed entry mem).1 (Option.some.inj dir)
    · cases dir
  · rw [List.Nodup, List.pairwise_filterMap]
    refine (List.pairwise_map.mp wf.distinct).imp ?_
    intro a a' apart b dir b' dir'
    split at dir <;> split at dir' <;> cases dir <;> cases dir'
    exact apart

/-- What stands in a tree stands in a directory. -/
theorem at?_dropLast (wf : t.WellFormed) (here : t.at? p = some e) :
    t.at? p.dropLast = some .dir := by
  by_cases root : p = []
  · rw [root]
    exact t.at?_nil
  · exact (wf.housed _ (mem_entries_of_at? root here)).2

theorem plain_of_at? (wf : t.WellFormed) (here : t.at? p = some e) : ∀ n ∈ p, n.IsPlain := by
  by_cases root : p = []
  · rw [root]
    exact nofun
  · exact wf.plain _ (mem_entries_of_at? root here)

/-- From a directory of the tree, names that lead to a directory lead to one of the tree. -/
theorem at?_of_leads (wf : t.WellFormed) {names : List Name} (start : t.at? p = some .dir)
    (leads : t.Leads p names q .dir) : t.at? q = some .dir := by
  generalize arrived : Kind.dir = k at leads
  induction leads with
  | here => exact start
  | stay _ _ ih => exact ih start arrived
  | up _ ih => exact ih (wf.at?_dropLast start) arrived
  | dir _ entry _ ih => exact ih entry arrived
  | file => cases arrived
  | @link p _ _ target _ _ _ _ _ ih =>
    refine ih ?_ arrived
    rw [origin]
    split
    · exact t.at?_nil
    · exact start

end WellFormed

end LibraryHeaders.Tree
