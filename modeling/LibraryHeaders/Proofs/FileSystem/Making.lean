import LibraryHeaders.Proofs.FileSystem.WellFormed
import Mathlib.Logic.Relation

/-!
# Making trees

What is made in a tree leaves it a tree. A new entry gets a name that can be used, and it stands in
a directory where nothing stood; whatever stood in the tree before stands there still. So the system
takes all names in a tree that has been made.
-/

namespace LibraryHeaders.Tree

/-- The system takes all names in the tree. -/
def Usable (t : Tree) : Prop := ∀ e ∈ t.entries, ∀ n ∈ e.1, isUsable n = true

/-- A tree with all that stands in another one. -/
structure Extends (t t' : Tree) : Prop where
  wellFormed : t'.WellFormed
  keeps : ∀ p e, t.at? p = some e → t'.at? p = some e
  usable : t.Usable → t'.Usable

/-- A position in a directory where an entry can be made. -/
structure Vacant (t : Tree) (dir : Position) (n : Name) : Prop where
  housed : t.at? dir = some .dir
  free : t.at? (dir ++ [n]) = none
  usable : isUsable n = true
  slashless : Path.slash ∉ n

variable {t t' t'' : Tree} {p q dir : Position} {n : Name} {e : Entry} {names : List Name}
  {path : Path}

theorem WellFormed.extends_self (wf : t.WellFormed) : t.Extends t := ⟨wf, fun _ _ => id, id⟩

theorem Extends.trans (first : t.Extends t') (second : t'.Extends t'') : t.Extends t'' :=
  ⟨second.wellFormed, fun p e here => second.keeps p e (first.keeps p e here),
    fun usable => second.usable (first.usable usable)⟩

/-- The bytes of the files have no part in what stands where. -/
theorem Extends.withContents (ext : t.Extends t') (contents : List (List UInt8)) :
    t.Extends { t' with contents := contents } :=
  ⟨⟨ext.wellFormed.distinct, ext.wellFormed.plain, ext.wellFormed.housed⟩, ext.keeps, ext.usable⟩

theorem plain_of_isUsable (usable : isUsable n = true) (slashless : Path.slash ∉ n) :
    n.IsPlain :=
  ⟨(isUsable_iff.mp usable).1, slashless⟩

theorem Vacant.plain (vacant : t.Vacant dir n) : n.IsPlain :=
  plain_of_isUsable vacant.usable vacant.slashless

theorem slashless_of_mem_parts (mem : n ∈ path.parts) : Path.slash ∉ n :=
  Text.notMem_of_mem_split mem

theorem slashless_of_mem_front (mem : n ∈ path.parts.dropLast) : Path.slash ∉ n :=
  slashless_of_mem_parts (List.mem_of_mem_dropLast mem)

theorem at?_add_of_at? (here : t.at? p = some e) (new : Position) (e' : Entry) :
    (t.add new e').at? p = some e := by
  rw [at?] at here ⊢
  split
  · rename_i root
    rwa [if_pos root] at here
  · rename_i below
    rw [if_neg below] at here
    obtain ⟨entry, found, value⟩ := Option.map_eq_some_iff.mp here
    rw [add, List.find?_append, found]
    exact congrArg some value

theorem at?_add_self (free : t.at? (dir ++ [n]) = none) (e : Entry) :
    (t.add (dir ++ [n]) e).at? (dir ++ [n]) = some e := by
  have below : dir ++ [n] ≠ [] := List.concat_ne_nil n dir
  rw [at?, if_neg below] at free ⊢
  rw [add, List.find?_append, Option.map_eq_none_iff.mp free]
  simp

/-- The system takes the names that lead to what stands in the tree. -/
theorem Usable.of_at? (usable : t.Usable) (here : t.at? p = some e) :
    ∀ n ∈ p, isUsable n = true := by
  by_cases root : p = []
  · rw [root]
    exact nofun
  · exact usable _ (mem_entries_of_at? root here)

theorem Usable.add (usable : t.Usable) (vacant : t.Vacant dir n) (e : Entry) :
    (t.add (dir ++ [n]) e).Usable := by
  intro entry mem m ofEntry
  rcases List.mem_append.mp mem with old | new
  · exact usable entry old m ofEntry
  · cases List.mem_singleton.mp new
    rcases List.mem_append.mp ofEntry with front | last
    · exact usable.of_at? vacant.housed m front
    · rw [List.mem_singleton.mp last]
      exact vacant.usable

/-- The step: an entry in a vacant place. -/
theorem WellFormed.add (wf : t.WellFormed) (vacant : t.Vacant dir n) (e : Entry) :
    t.Extends (t.add (dir ++ [n]) e) := by
  refine ⟨⟨?_, ?_, ?_⟩, fun p e' here => at?_add_of_at? here _ e, fun usable => usable.add vacant e⟩
  · rw [Tree.add, List.map_append, List.nodup_append]
    refine ⟨wf.distinct, List.nodup_singleton _, ?_⟩
    rintro p mem p' new rfl
    obtain ⟨entry, old, rfl⟩ := List.mem_map.mp mem
    have here : t.at? entry.1 = some entry.2 := wf.at?_of_mem_entries old
    rw [List.mem_singleton.mp new, vacant.free] at here
    cases here
  · intro entry mem m ofEntry
    rcases List.mem_append.mp mem with old | new
    · exact wf.plain entry old m ofEntry
    · cases List.mem_singleton.mp new
      rcases List.mem_append.mp ofEntry with front | last
      · exact wf.plain_of_at? vacant.housed m front
      · rw [List.mem_singleton.mp last]
        exact vacant.plain
  · intro entry mem
    rcases List.mem_append.mp mem with old | new
    · obtain ⟨below, housed⟩ := wf.housed entry old
      exact ⟨below, at?_add_of_at? housed _ e⟩
    · cases List.mem_singleton.mp new
      refine ⟨List.concat_ne_nil n dir, ?_⟩
      rw [List.dropLast_concat]
      exact at?_add_of_at? vacant.housed _ e

theorem WellFormed.at?_of_follow (wf : t.WellFormed) {links : Nat} (start : t.at? p = some .dir)
    (found : t.follow links p names = .ok (q, .dir)) : t.at? q = some .dir := by
  have leads := t.follow_spec links p names
  rw [found] at leads
  exact wf.at?_of_leads start leads

/-- The run along the names of a path. -/
theorem WellFormed.makeDirs (wf : t.WellFormed) (start : t.at? p = some .dir)
    (slashless : ∀ n ∈ names, Path.slash ∉ n) (made : t.makeDirs p names = some (t', q)) :
    t.Extends t' ∧ t'.at? q = some .dir := by
  induction names generalizing t p with
  | nil =>
    cases made
    exact ⟨wf.extends_self, start⟩
  | cons n names ih =>
    obtain ⟨slashless_n, slashless⟩ := List.forall_mem_cons.mp slashless
    rw [Tree.makeDirs] at made
    split at made
    · rename_i q' found
      exact ih wf (wf.at?_of_follow start found) slashless made
    · cases made
    · split at made
      · rename_i usable
        have free : t.at? (p ++ [n]) = none := Option.isNone_iff_eq_none.mp usable.2
        have ext := wf.add ⟨start, free, usable.1, slashless_n⟩ .dir
        obtain ⟨onward, here⟩ := ih ext.wellFormed (at?_add_self free .dir) slashless made
        exact ⟨ext.trans onward, here⟩
      · cases made
    · cases made

theorem WellFormed.makeRoom (wf : t.WellFormed) (start : t.at? p = some .dir)
    (made : t.makeRoom p path = some (t', q)) :
    t.Extends t' ∧ ∃ dir n, q = dir ++ [n] ∧ t'.Vacant dir n := by
  simp only [Tree.makeRoom, Option.bind_eq_bind, Option.bind_eq_some_iff] at made
  obtain ⟨n, last, ⟨t₁, dir⟩, dirs, made⟩ := made
  obtain ⟨ext, housed⟩ := wf.makeDirs start (fun _ => slashless_of_mem_front) dirs
  dsimp only at made
  split at made
  · rename_i usable
    cases made
    exact ⟨ext, dir, n, rfl, housed, Option.isNone_iff_eq_none.mp usable.2, usable.1,
      slashless_of_mem_parts (List.mem_of_getLast? last)⟩
  · cases made

/-- A new file is made where nothing stands, or at the end of a link that stands there. -/
theorem vacancy?_cases {links : Nat} (found : t.vacancy? links p names = some q) :
    ∃ n dir, names.getLast? = some n ∧ t.follow mostLinks p names.dropLast = .ok (dir, .dir) ∧
      ((t.at? (dir ++ [n]) = none ∧ isUsable n = true ∧ q = dir ++ [n]) ∨
        ∃ target fewer, links = fewer + 1 ∧ t.at? (dir ++ [n]) = some (.link target) ∧
          t.vacancy? fewer (origin dir target) target.parts = some q) := by
  rw [vacancy?.eq_def, Option.bind_eq_bind, Option.bind_eq_some_iff] at found
  obtain ⟨n, last, found⟩ := found
  split at found
  · rename_i dir leads
    refine ⟨n, dir, last, leads, ?_⟩
    split at found
    · rename_i free
      split at found
      · rename_i usable
        cases found
        exact Or.inl ⟨free, usable, rfl⟩
      · cases found
    · rename_i target isLink
      split at found
      · cases found
      · rename_i fewer
        exact Or.inr ⟨target, fewer, rfl, isLink, found⟩
    · cases found
  · cases found

theorem WellFormed.vacancy? (wf : t.WellFormed) {links : Nat} (start : t.at? p = some .dir)
    (slashless : ∀ n ∈ names, Path.slash ∉ n) (found : t.vacancy? links p names = some q) :
    ∃ dir n, q = dir ++ [n] ∧ t.Vacant dir n := by
  induction links using Nat.strongRecOn generalizing p names with
  | ind links ih =>
    obtain ⟨n, dir, last, leads, rest⟩ := vacancy?_cases found
    have housed := wf.at?_of_follow start leads
    rcases rest with ⟨free, usable, rfl⟩ | ⟨target, fewer, rfl, -, onward⟩
    · exact ⟨dir, n, rfl, housed, free, usable, slashless n (List.mem_of_getLast? last)⟩
    · refine ih fewer (Nat.lt_succ_self fewer) ?_ (fun _ => slashless_of_mem_parts) onward
      rw [origin]
      split
      · exact t.at?_nil
      · exact housed

theorem WellFormed.addDir (wf : t.WellFormed) (start : t.at? p = some .dir)
    (made : t.addDir p path = some t') : t.Extends t' := by
  obtain ⟨⟨_, q⟩, dirs, rfl⟩ := Option.map_eq_some_iff.mp made
  exact (wf.makeDirs start (fun _ => slashless_of_mem_parts) dirs).1

theorem WellFormed.addLink (wf : t.WellFormed) {target : Path} (start : t.at? p = some .dir)
    (made : t.addLink p path target = some t') : t.Extends t' := by
  simp only [Tree.addLink, Option.bind_eq_bind, Option.bind_eq_some_iff] at made
  obtain ⟨⟨t₁, q⟩, room, made⟩ := made
  obtain ⟨ext, dir, n, rfl, vacant⟩ := wf.makeRoom start room
  cases made
  exact ext.trans (ext.wellFormed.add vacant _)

theorem WellFormed.addName (wf : t.WellFormed) {existing : Path} (start : t.at? p = some .dir)
    (made : t.addName p path existing = some t') : t.Extends t' := by
  simp only [Tree.addName, Option.bind_eq_bind, Option.bind_eq_some_iff] at made
  obtain ⟨⟨t₁, q⟩, room, name, -, made⟩ := made
  obtain ⟨ext, dir, n, rfl, vacant⟩ := wf.makeRoom start room
  split at made
  · split at made
    · cases made
      exact ext.trans (ext.wellFormed.add vacant _)
    · cases made
      exact ext.trans (ext.wellFormed.add vacant _)
    · cases made
  · cases made

theorem WellFormed.addFile (wf : t.WellFormed) {bytes : List UInt8} (start : t.at? p = some .dir)
    (made : t.addFile p path bytes = some t') : t.Extends t' := by
  simp only [Tree.addFile, Option.bind_eq_bind, Option.bind_eq_some_iff] at made
  obtain ⟨⟨t₁, q⟩, dirs, made⟩ := made
  have ext := (wf.makeDirs start (fun _ => slashless_of_mem_front) dirs).1
  split at made
  · cases made
    exact ext.withContents _
  · obtain ⟨q, vacancy, made⟩ := Option.bind_eq_some_iff.mp made
    obtain ⟨dir, n, rfl, vacant⟩ :=
      ext.wellFormed.vacancy? (ext.keeps _ _ start) (fun _ => slashless_of_mem_parts) vacancy
    cases made
    exact (ext.trans (ext.wellFormed.add vacant _)).withContents _

/-- Something is made in a tree, at a path seen from `dir`. -/
inductive Makes (dir : Position) (t t' : Tree) : Prop where
  | dir {path : Path} (made : t.addDir dir path = some t')
  | file {path : Path} {bytes : List UInt8} (made : t.addFile dir path bytes = some t')
  | link {path target : Path} (made : t.addLink dir path target = some t')
  | name {path existing : Path} (made : t.addName dir path existing = some t')

theorem Makes.extends (wf : t.WellFormed) (start : t.at? dir = some .dir) (makes : Makes dir t t') :
    t.Extends t' := by
  cases makes with
  | dir made => exact wf.addDir start made
  | file made => exact wf.addFile start made
  | link made => exact wf.addLink start made
  | name made => exact wf.addName start made

/-- The run: whatever is made one after the other, from the empty tree on, is a tree, and the system
takes its names. -/
theorem extends_of_makes (made : Relation.ReflTransGen (Makes []) empty t) : empty.Extends t := by
  induction made with
  | refl => exact WellFormed.extends_self ⟨List.nodup_nil, nofun, nofun⟩
  | @tail t t' _ makes ext => exact ext.trans (makes.extends ext.wellFormed t.at?_nil)

theorem wellFormed_of_makes (made : Relation.ReflTransGen (Makes []) empty t) : t.WellFormed :=
  (extends_of_makes made).wellFormed

theorem usable_of_makes (made : Relation.ReflTransGen (Makes []) empty t) : t.Usable :=
  (extends_of_makes made).usable nofun

end LibraryHeaders.Tree
