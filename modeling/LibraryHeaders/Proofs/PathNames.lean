import LibraryHeaders.Path
import LibraryHeaders.Proofs.Occurrences
import Mathlib.Data.List.Basic

/-!
# The names in a path

A path goes through names. Empty names and `.` do not count among them, as they lead nowhere, and
paths are compared name by name. Joining a path to a directory puts its names behind those of the
directory.
-/

namespace LibraryHeaders

namespace Name

/-- A name that leads to an entry: it neither stays in a directory nor goes up from it. -/
def IsOrdinary (n : Name) : Prop := n ≠ [] ∧ n ≠ [Path.dot] ∧ n ≠ [Path.dot, Path.dot]

instance (n : Name) : Decidable n.IsOrdinary := inferInstanceAs (Decidable (_ ∧ _))

/-- A name that an entry of a directory can have. -/
structure IsPlain (n : Name) : Prop where
  ordinary : n.IsOrdinary
  slashless : Path.slash ∉ n

instance (n : Name) : Decidable n.IsPlain :=
  decidable_of_iff (n.IsOrdinary ∧ Path.slash ∉ n)
    ⟨fun h => ⟨h.1, h.2⟩, fun h => ⟨h.ordinary, h.slashless⟩⟩

theorem le_iff {a b : Name} : Name.le a b = true ↔ a ≤ b := by
  induction a generalizing b with
  | nil => simp [Name.le]
  | cons x a ih =>
    cases b with
    | nil => simp [Name.le]
    | cons y b =>
      rw [Name.le, List.cons_le_cons_iff, ← ih]
      simp

theorem pathLe_iff {p q : List Name} : pathLe p q = true ↔ p ≤ q := by
  induction p generalizing q with
  | nil => simp [pathLe]
  | cons a p ih =>
    cases q with
    | nil => simp [pathLe]
    | cons b q =>
      rw [pathLe, List.cons_le_cons_iff, ← ih]
      by_cases same : a = b
      · subst same
        simp [List.lt_irrefl]
      · rw [if_neg same, le_iff]
        constructor
        · intro le
          exact Or.inl (Std.lt_of_le_of_ne le same)
        · rintro (lt | ⟨eq, _⟩)
          · exact List.le_of_lt lt
          · exact absurd eq same

/-- Sorting paths without repetition makes them strictly increasing. -/
theorem pairwise_lt_mergeSort {paths : List (List Name)} (distinct : paths.Nodup) :
    (paths.mergeSort pathLe).Pairwise (· < ·) := by
  have sorted : (paths.mergeSort pathLe).Pairwise fun p q => pathLe p q = true := by
    apply List.pairwise_mergeSort
    · intro a b c ab bc
      exact pathLe_iff.mpr (List.le_trans (pathLe_iff.mp ab) (pathLe_iff.mp bc))
    · intro a b
      rw [Bool.or_eq_true, pathLe_iff, pathLe_iff]
      exact List.le_total a b
  have apart : (paths.mergeSort pathLe).Pairwise (· ≠ ·) :=
    (List.mergeSort_perm paths pathLe).nodup_iff.mpr distinct
  refine sorted.imp₂ ?_ apart
  intro p q le ne
  exact Std.lt_of_le_of_ne (pathLe_iff.mp le) ne

end Name

namespace Path

/-- The names that a path goes through. -/
def names (p : Path) : List Name := p.parts.filter fun n => n ≠ [] ∧ n ≠ [dot]

variable {dir p root : Path} {n : Name}

/-- A path is joined to a directory with one slash between them. -/
theorem join_cases (nonempty : dir.bytes ≠ []) (relative : p.isAbsolute = false) :
    (∃ front, dir.bytes = front ++ [slash] ∧ (dir.join p).bytes = front ++ slash :: p.bytes) ∨
      (dir.join p).bytes = dir.bytes ++ slash :: p.bytes := by
  rw [join, relative, if_neg Bool.false_ne_true]
  cases last : dir.bytes.getLast? with
  | none => exact absurd (List.getLast?_eq_none_iff.mp last) nonempty
  | some b =>
    dsimp only
    by_cases ends : b = slash
    · subst ends
      obtain ⟨front, cut⟩ := List.getLast?_eq_some_iff.mp last
      rw [if_pos rfl]
      refine Or.inl ⟨front, cut, ?_⟩
      rw [cut, List.append_assoc]
      rfl
    · rw [if_neg ends]
      exact Or.inr rfl

theorem join_ne_nil (nonempty : dir.bytes ≠ []) (relative : p.isAbsolute = false) :
    (dir.join p).bytes ≠ [] := by
  rcases join_cases nonempty relative with ⟨front, -, joined⟩ | joined
  · rw [joined]
    exact List.append_ne_nil_of_right_ne_nil _ (List.cons_ne_nil _ _)
  · rw [joined]
    exact List.append_ne_nil_of_right_ne_nil _ (List.cons_ne_nil _ _)

theorem isAbsolute_join (nonempty : dir.bytes ≠ []) (relative : p.isAbsolute = false) :
    (dir.join p).isAbsolute = dir.isAbsolute := by
  rcases join_cases nonempty relative with ⟨front, cut, joined⟩ | joined
  · rw [isAbsolute, isAbsolute, joined, cut]
    cases front <;> rfl
  · rw [isAbsolute, isAbsolute, joined, List.head?_append_of_ne_nil _ nonempty]

/-- The parts of a joined path. A directory that ends with a slash has an empty part at its end,
which is left out then. -/
theorem parts_join (nonempty : dir.bytes ≠ []) (relative : p.isAbsolute = false) :
    (∃ front, dir.parts = front ++ [[]] ∧ (dir.join p).parts = front ++ p.parts) ∨
      (dir.join p).parts = dir.parts ++ p.parts := by
  rcases join_cases nonempty relative with ⟨front, cut, joined⟩ | joined
  · refine Or.inl ⟨Text.split slash front, ?_, ?_⟩
    · rw [parts, cut, Text.split_append_sep]
      rfl
    · rw [parts, joined, Text.split_append_sep, parts]
  · refine Or.inr ?_
    simp only [parts, joined, Text.split_append_sep]

theorem parts_single (slashless : slash ∉ n) : parts ⟨n⟩ = [n] := Text.split_of_notMem slashless

theorem isAbsolute_single (slashless : slash ∉ n) : isAbsolute ⟨n⟩ = false := by
  rw [isAbsolute, beq_eq_false_iff_ne]
  intro starts
  exact slashless (List.mem_of_mem_head? starts)

theorem names_join (nonempty : dir.bytes ≠ []) (relative : p.isAbsolute = false) :
    (dir.join p).names = dir.names ++ p.names := by
  rcases parts_join nonempty relative with ⟨front, cut, joined⟩ | joined
  · rw [names, names, names, joined, cut]
    simp
  · rw [names, joined, List.filter_append, names, names]

theorem names_single (plain : n.IsPlain) : names ⟨n⟩ = [n] := by
  rw [names, parts_single plain.slashless]
  simp [plain.ordinary.1, plain.ordinary.2.1]

theorem below_concat (root : Path) (ns : List Name) (n : Name) :
    root.below (ns ++ [n]) = (root.below ns).join ⟨n⟩ := by
  rw [below, List.foldl_append]
  rfl

theorem below_ne_nil (nonempty : root.bytes ≠ []) {ns : List Name} (plain : ∀ n ∈ ns, n.IsPlain) :
    (root.below ns).bytes ≠ [] := by
  induction ns using List.reverseRecOn with
  | nil => exact nonempty
  | append_singleton ns n ih =>
    obtain ⟨front, last⟩ := List.forall_mem_append.mp plain
    have relative := isAbsolute_single (List.forall_mem_singleton.mp last).slashless
    rw [below_concat]
    exact join_ne_nil (ih front) relative

theorem isAbsolute_below (nonempty : root.bytes ≠ []) {ns : List Name}
    (plain : ∀ n ∈ ns, n.IsPlain) : (root.below ns).isAbsolute = root.isAbsolute := by
  induction ns using List.reverseRecOn with
  | nil => rfl
  | append_singleton ns n ih =>
    obtain ⟨front, last⟩ := List.forall_mem_append.mp plain
    have relative := isAbsolute_single (List.forall_mem_singleton.mp last).slashless
    rw [below_concat, isAbsolute_join (below_ne_nil nonempty front) relative, ih front]

/-- The names of a path below a root stand behind those of the root. -/
theorem names_below (nonempty : root.bytes ≠ []) {ns : List Name} (plain : ∀ n ∈ ns, n.IsPlain) :
    (root.below ns).names = root.names ++ ns := by
  induction ns using List.reverseRecOn with
  | nil => exact (List.append_nil _).symm
  | append_singleton ns n ih =>
    obtain ⟨front, last⟩ := List.forall_mem_append.mp plain
    have plain_n := List.forall_mem_singleton.mp last
    have relative := isAbsolute_single plain_n.slashless
    rw [below_concat, names_join (below_ne_nil nonempty front) relative, ih front,
      names_single plain_n, List.append_assoc]

end Path

/-! ## Extensions -/

/-- Behind the last dot of a name that has one no other dot follows. -/
theorem Name.exists_lastDot {n : Name} (dotted : Path.dot ∈ n) :
    ∃ stem rest, n = stem ++ Path.dot :: rest ∧ Path.dot ∉ rest := by
  induction n using List.reverseRecOn with
  | nil => cases dotted
  | append_singleton n c ih =>
    by_cases last : c = Path.dot
    · exact ⟨n, [], by rw [last], List.not_mem_nil⟩
    · have earlier : Path.dot ∈ n := by
        rcases List.mem_append.mp dotted with front | back
        · exact front
        · exact absurd (List.mem_singleton.mp back).symm last
      obtain ⟨stem, rest, rfl, plain⟩ := ih earlier
      refine ⟨stem, rest ++ [c], by rw [List.append_assoc, List.cons_append], ?_⟩
      intro mem
      rcases List.mem_append.mp mem with front | back
      · exact plain front
      · exact last (List.mem_singleton.mp back).symm

theorem Name.extension?_append {stem e : Name} (plain : Path.dot ∉ e) :
    Name.extension? (stem ++ Path.dot :: e) = if stem = [] then none else some e := by
  rw [Name.extension?, Text.split_append_sep, Text.split_of_notMem plain, List.reverse_append]
  by_cases empty : stem = []
  · subst empty
    rfl
  · rw [if_neg empty]
    cases parts : (Text.split Path.dot stem).reverse with
    | nil => exact absurd (List.reverse_eq_nil_iff.mp parts) (Text.split_ne_nil _ _)
    | cons front more =>
      refine if_neg ?_
      rw [Bool.and_eq_true, List.isEmpty_iff, List.isEmpty_iff]
      rintro ⟨rfl, rfl⟩
      exact empty (Text.eq_of_split_eq_singleton (List.reverse_eq_iff.mp parts))

/-- The extension is what follows the last dot, if something stands before that dot. -/
theorem Name.extension?_eq_some_iff {n e : Name} :
    n.extension? = some e ↔ ∃ stem, n = stem ++ Path.dot :: e ∧ stem ≠ [] ∧ Path.dot ∉ e := by
  constructor
  · intro found
    by_cases dotted : Path.dot ∈ n
    · obtain ⟨stem, rest, rfl, plain⟩ := Name.exists_lastDot dotted
      rw [Name.extension?_append plain] at found
      split at found
      · cases found
      · rename_i nonempty
        cases found
        exact ⟨stem, rfl, nonempty, plain⟩
    · rw [Name.extension?, Text.split_of_notMem dotted] at found
      cases found
  · rintro ⟨stem, rfl, nonempty, plain⟩
    rw [Name.extension?_append plain, if_neg nonempty]

theorem Name.isHeader_iff {n : Name} :
    n.isHeader = true ↔ ∃ e ∈ Name.headerExtensions, n.extension? = some e := by
  rw [Name.isHeader]
  cases n.extension? <;> simp

namespace Path

/-- The last name of a path has an extension: what follows its last dot, unless that dot is the
first byte. -/
def HasExtension (p : Path) (e : Name) : Prop :=
  ∃ front stem, p.names = front ++ [stem ++ dot :: e] ∧ stem ≠ [] ∧ dot ∉ e

theorem hasExtension_iff {p : Path} {front : List Name} {n e : Name}
    (last : p.names = front ++ [n]) : p.HasExtension e ↔ n.extension? = some e := by
  rw [HasExtension, last, Name.extension?_eq_some_iff]
  constructor
  · rintro ⟨front', stem, same, rest⟩
    exact ⟨stem, List.singleton_inj.mp (List.append_inj' same rfl).2, rest⟩
  · rintro ⟨stem, rfl, rest⟩
    exact ⟨front, stem, rfl, rest⟩

theorem isHeader_iff {p : Path} :
    p.isHeader = true ↔ ∃ e ∈ Name.headerExtensions, p.HasExtension e := by
  have folded : (p.parts.filter fun n => n ≠ [] ∧ n ≠ [dot]) = p.names := rfl
  rw [isHeader, fileName?, folded]
  cases named : p.names.getLast? with
  | none =>
    refine iff_of_false Bool.false_ne_true ?_
    rintro ⟨e, -, front, stem, names, -⟩
    rw [names, List.getLast?_concat] at named
    cases named
  | some n =>
    obtain ⟨front, names⟩ := List.getLast?_eq_some_iff.mp named
    simp only [hasExtension_iff names, ← Name.isHeader_iff]
    by_cases up : n = [dot, dot]
    · subst up
      decide
    · rw [if_neg up]

/-- An entry of a directory is a header file if its name is that of one. -/
theorem isHeader_join {dir : Path} {n : Name} (nonempty : dir.bytes ≠ []) (plain : n.IsPlain) :
    (dir.join ⟨n⟩).isHeader = n.isHeader := by
  have names := names_join nonempty (isAbsolute_single plain.slashless)
  rw [names_single plain] at names
  rw [Bool.eq_iff_iff, isHeader_iff, Name.isHeader_iff]
  simp only [hasExtension_iff names]

end Path

end LibraryHeaders
