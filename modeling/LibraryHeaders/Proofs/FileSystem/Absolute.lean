import LibraryHeaders.Proofs.FileSystem.Walk

/-!
# Absolute paths

A path that is made absolute leads where it led before: the names of the current directory lead
through plain directories, so nothing is followed on the way and no link more is counted. What the
system answers about the two paths can differ only if the longer one is too long for it.
-/

namespace LibraryHeaders

/-- The system takes the path: it has no NUL, and neither the path nor a name in it is too long. -/
structure Path.Fits (p : Path) : Prop where
  nulFree : 0 ∉ p.bytes
  names : ∀ n ∈ p.parts, n.length ≤ Tree.longestName
  length : p.bytes.length ≤ Tree.longestPath

instance (p : Path) : Decidable p.Fits :=
  decidable_of_iff (0 ∉ p.bytes ∧ (∀ n ∈ p.parts, n.length ≤ Tree.longestName) ∧
      p.bytes.length ≤ Tree.longestPath)
    ⟨fun h => ⟨h.1, h.2.1, h.2.2⟩, fun h => ⟨h.nulFree, h.names, h.length⟩⟩

/-- Where a joined path fits, the path that was joined does so, too. -/
theorem Path.Fits.of_join {dir p : Path} (nonempty : dir.bytes ≠ [])
    (relative : p.isAbsolute = false) (fits : (dir.join p).Fits) : p.Fits := by
  have bytes : p.bytes.Sublist (dir.join p).bytes := by
    rcases Path.join_cases nonempty relative with ⟨front, -, joined⟩ | joined
    · rw [joined]
      exact (List.sublist_cons_self _ _).trans (List.sublist_append_right _ _)
    · rw [joined]
      exact (List.sublist_cons_self _ _).trans (List.sublist_append_right _ _)
  have parts : ∀ n ∈ p.parts, n ∈ (dir.join p).parts := by
    intro n mem
    rcases Path.parts_join nonempty relative with ⟨front, -, joined⟩ | joined
    · rw [joined]
      exact List.mem_append_right front mem
    · rw [joined]
      exact List.mem_append_right dir.parts mem
  exact ⟨fun nul => fits.nulFree (bytes.subset nul), fun n mem => fits.names n (parts n mem),
    bytes.length_le.trans fits.length⟩

namespace Position

variable {p : Position} {path : Path}

theorem isAbsolute_path (p : Position) : p.path.isAbsolute = true := by
  rw [Position.path]
  cases p <;> rfl

theorem path_ne_nil (p : Position) : p.path.bytes ≠ [] := by
  intro empty
  have absolute := p.isAbsolute_path
  rw [Path.isAbsolute, empty] at absolute
  cases absolute

/-- Below a position a path begins with the names of the position, a slash before each. -/
theorem bytes_join_path (plain : ∀ n ∈ p, n.IsPlain) (relative : path.isAbsolute = false) :
    (p.path.join path).bytes =
      (p.flatMap fun n => Path.slash :: n) ++ Path.slash :: path.bytes := by
  induction p using List.reverseRecOn with
  | nil =>
    rw [Path.join, relative]
    rfl
  | append_singleton p n =>
    have plain_n : n.IsPlain := plain n (List.mem_append_right p (List.mem_singleton_self n))
    have spelled : (Position.path (p ++ [n])).bytes =
        (p ++ [n]).flatMap fun n => Path.slash :: n := by
      rw [Position.path, if_neg (List.concat_ne_nil n p)]
    rcases Path.join_cases (path_ne_nil (p ++ [n])) relative with ⟨front, cut, -⟩ | joined
    · -- the last byte is that of a name, which has no slash
      obtain ⟨stem, b, rfl⟩ := (List.eq_nil_or_concat' n).resolve_left plain_n.ordinary.1
      rw [spelled, List.flatMap_append, List.flatMap_singleton, ← List.cons_append,
        ← List.append_assoc] at cut
      obtain rfl : b = Path.slash := List.singleton_inj.mp (List.append_inj' cut rfl).2
      exact absurd (List.mem_append_right stem (List.mem_singleton_self _)) plain_n.slashless
    · rw [joined, spelled]

/-- A path that leads below a position leads first through the names of the position. -/
theorem parts_join_path (plain : ∀ n ∈ p, n.IsPlain) (relative : path.isAbsolute = false) :
    (p.path.join path).parts = [] :: (p ++ path.parts) := by
  have split : Text.split Path.slash (p.flatMap fun n => Path.slash :: n) = [] :: p := by
    induction p using List.reverseRecOn with
    | nil => rfl
    | append_singleton p n ih =>
      obtain ⟨front, last⟩ := List.forall_mem_append.mp plain
      have slashless := (List.forall_mem_singleton.mp last).slashless
      rw [List.flatMap_append, List.flatMap_singleton, Text.split_append_sep, ih front,
        Text.split_of_notMem slashless, List.cons_append]
  rw [Path.parts, bytes_join_path plain relative, Text.split_append_sep, split, List.cons_append,
    Path.parts]

end Position

namespace Tree

variable {t : Tree} {p q d : Position} {n : Name} {rest xs ys zs names : List Name} {k : Kind}
  {links : Nat}

/-- Above a directory of the tree there are directories only. -/
theorem WellFormed.at?_prefix (wf : t.WellFormed) (here : t.at? (p ++ names) = some .dir) :
    t.at? p = some .dir := by
  induction names using List.reverseRecOn with
  | nil => rwa [List.append_nil] at here
  | append_singleton names n ih =>
    have above := wf.at?_dropLast here
    rw [← List.append_assoc, List.dropLast_concat] at above
    exact ih above

/-- A walk goes along the names of plain directories. -/
theorem advance_dirs (wf : t.WellFormed) (here : t.at? (p ++ names) = some .dir)
    (short : ∀ n ∈ names, n.length ≤ longestName) (rest : List Name) :
    t.advance p .dir (names ++ rest) = t.advance (p ++ names) .dir rest := by
  induction names generalizing p with
  | nil => rw [List.nil_append, List.append_nil]
  | cons n names ih =>
    rw [List.append_cons] at here ⊢
    obtain ⟨shortFirst, shortRest⟩ := List.forall_mem_cons.mp short
    have entry : t.at? (p ++ [n]) = some .dir := wf.at?_prefix here
    have ordinary : n.IsOrdinary := (wf.plain_of_at? entry n (by simp)).ordinary
    rw [List.cons_append, advance, if_neg (not_or.mpr ⟨ordinary.1, ordinary.2.1⟩),
      if_neg ordinary.2.2, if_neg (Nat.not_lt.mpr shortFirst), entry]
    exact ih here shortRest

/-- Following depends only on where the first walk stops. -/
theorem follow_congr {names' : List Name}
    (same : t.advance p .dir names = t.advance q .dir names') :
    t.follow links p names = t.follow links q names' := by
  cases links <;> rw [follow, follow, same]

/-- A path that fits is resolved by following its names. -/
theorem resolve_of_fits {path : Path} (nonempty : path.bytes ≠ []) (fits : path.Fits)
    (current : Position) :
    t.resolve current path = t.follow mostLinks (origin current path) path.parts := by
  have nulFree : ¬ path.bytes.contains 0 = true := by
    rw [List.contains_iff_mem]
    exact fits.nulFree
  rw [resolve, if_neg nulFree, if_neg nonempty, if_neg (Nat.not_lt.mpr fits.length), origin]

end Tree

namespace Host

variable {h : Host} {path : Path} {q : Position} {k : Kind}

theorem absolute_of_isAbsolute (anchored : (h.anchor path).isAbsolute = true) :
    h.absolute path = h.anchor path :=
  if_pos anchored

theorem absolute_of_not_isAbsolute (anchored : (h.anchor path).isAbsolute = false) :
    h.absolute path = h.currentPath.join (h.anchor path) :=
  if_neg (Bool.eq_false_iff.mp anchored)

theorem isAbsolute_absolute (h : Host) (path : Path) : (h.absolute path).isAbsolute = true := by
  cases anchored : (h.anchor path).isAbsolute with
  | true =>
    rw [absolute_of_isAbsolute anchored]
    exact anchored
  | false =>
    rw [absolute_of_not_isAbsolute anchored, currentPath,
      Path.isAbsolute_join h.current.path_ne_nil anchored]
    exact h.current.isAbsolute_path

/-- An absolute path is not seen from the working directory. -/
theorem anchor_of_isAbsolute (absolute : path.isAbsolute = true) : h.anchor path = path := by
  rw [anchor]
  split
  · exact if_pos absolute
  · rfl

theorem fits_of_absolute (fits : (h.absolute path).Fits) : (h.anchor path).Fits := by
  cases relative : (h.anchor path).isAbsolute with
  | true => rwa [absolute_of_isAbsolute relative] at fits
  | false =>
    rw [absolute_of_not_isAbsolute relative, currentPath] at fits
    exact fits.of_join h.current.path_ne_nil relative

/-- Names that the system takes bring no NUL into a path below them. -/
theorem zero_mem_absolute_iff (wf : h.WellFormed)
    (usable : ∀ n ∈ h.current, Tree.isUsable n = true)
    (relative : (h.anchor path).isAbsolute = false) :
    0 ∈ (h.absolute path).bytes ↔ 0 ∈ (h.anchor path).bytes := by
  have noSlash : (0 : UInt8) ≠ Path.slash := by decide
  have nulFree : ∀ n ∈ h.current, (0 : UInt8) ∉ n := fun n mem =>
    (Tree.isUsable_iff.mp (usable n mem)).2.2
  rw [absolute_of_not_isAbsolute relative, currentPath,
    Position.bytes_join_path (wf.tree.plain_of_at? wf.current) relative, List.mem_append,
    List.mem_cons, or_iff_right noSlash, or_iff_right_iff_imp]
  intro inNames
  obtain ⟨n, mem, inName⟩ := List.mem_flatMap.mp inNames
  exact absurd ((List.mem_cons.mp inName).resolve_left noSlash) (nulFree n mem)

/-- The system answers about a path that is made absolute what it answers about the anchored path,
if it takes the names of the current directory and the absolute path is not too long for it. -/
theorem lookup_absolute_of_usable (wf : h.WellFormed)
    (usable : ∀ n ∈ h.current, Tree.isUsable n = true) (nonempty : (h.anchor path).bytes ≠ [])
    (fits : (h.absolute path).bytes.length ≤ Tree.longestPath) :
    h.lookup (h.absolute path) = h.lookup (h.anchor path) := by
  cases relative : (h.anchor path).isAbsolute with
  | true => rw [absolute_of_isAbsolute relative]
  | false =>
    have absolute := h.isAbsolute_absolute path
    have nul := zero_mem_absolute_iff wf usable relative
    have plain := wf.tree.plain_of_at? wf.current
    rw [absolute_of_not_isAbsolute relative, currentPath] at fits absolute nul ⊢
    have nulHere : (h.current.path.join (h.anchor path)).bytes.contains 0 =
        (h.anchor path).bytes.contains 0 := by
      rw [List.contains_eq_mem, List.contains_eq_mem, decide_eq_decide]
      exact nul
    have fitsAnchored : (h.anchor path).bytes.length ≤ Tree.longestPath := by
      rw [Position.bytes_join_path plain relative, List.length_append, List.length_cons] at fits
      omega
    have short : ∀ n ∈ h.current, n.length ≤ Tree.longestName := fun n mem =>
      (Tree.isUsable_iff.mp (usable n mem)).2.1
    rw [lookup, lookup, Tree.resolve, Tree.resolve, nulHere,
      if_neg (Path.join_ne_nil h.current.path_ne_nil relative), if_neg nonempty,
      if_neg (Nat.not_lt.mpr fits), if_neg (Nat.not_lt.mpr fitsAnchored), if_pos absolute,
      if_neg (Bool.eq_false_iff.mp relative), Position.parts_join_path plain relative]
    refine if_congr Iff.rfl rfl (Tree.follow_congr ?_)
    rw [Tree.advance, if_pos (Or.inl rfl)]
    have here : h.tree.at? ([] ++ h.current) = some .dir := wf.current
    exact Tree.advance_dirs wf.tree here short _

/-- Where an absolute path fits, so do the names of the current directory before it. -/
theorem usable_of_fits (wf : h.WellFormed) (relative : (h.anchor path).isAbsolute = false)
    (fits : (h.absolute path).Fits) : ∀ n ∈ h.current, Tree.isUsable n = true := by
  intro n mem
  have plain := wf.tree.plain_of_at? wf.current
  rw [absolute_of_not_isAbsolute relative, currentPath] at fits
  have short : n.length ≤ Tree.longestName := by
    refine fits.names n ?_
    rw [Position.parts_join_path plain relative]
    exact List.mem_cons_of_mem _ (List.mem_append_left _ mem)
  have nulFree : (0 : UInt8) ∉ n := by
    intro nul
    refine fits.nulFree ?_
    rw [Position.bytes_join_path plain relative]
    exact List.mem_append_left _ (List.mem_flatMap.mpr ⟨n, mem, List.mem_cons_of_mem _ nul⟩)
  exact Tree.isUsable_iff.mpr ⟨(plain n mem).ordinary, short, nulFree⟩

/-- The system answers about a path that is made absolute what it answers about the anchored path,
if it takes the absolute one. -/
theorem lookup_absolute (wf : h.WellFormed) (nonempty : (h.anchor path).bytes ≠ [])
    (fits : (h.absolute path).Fits) : h.lookup (h.absolute path) = h.lookup (h.anchor path) := by
  cases relative : (h.anchor path).isAbsolute with
  | true => rw [absolute_of_isAbsolute relative]
  | false =>
    exact lookup_absolute_of_usable wf (usable_of_fits wf relative fits) nonempty fits.length

/-- A path that is not empty is not so either where it is seen from the working directory. -/
theorem anchor_ne_nil (nonempty : path.bytes ≠ []) : (h.anchor path).bytes ≠ [] := by
  rw [anchor]
  split
  · rename_i dir _
    rw [Path.join]
    split
    · exact nonempty
    split
    · exact nonempty
    · split
      · exact fun empty => nonempty (List.append_eq_nil_iff.mp empty).2
      · exact fun empty => List.cons_ne_nil _ _ (List.append_eq_nil_iff.mp empty).2
  · exact nonempty

theorem absolute_absolute (h : Host) (path : Path) :
    h.absolute (h.absolute path) = h.absolute path := by
  have absolute := h.isAbsolute_absolute path
  have anchored := anchor_of_isAbsolute (h := h) absolute
  rw [absolute_of_isAbsolute (by rw [anchored]; exact absolute), anchored]

/-- An absolute path is looked up as the path is that it is made of. -/
theorem lookup_anchor_absolute (wf : h.WellFormed) (usable : ∀ n ∈ h.current, Tree.isUsable n = true)
    (nonempty : path.bytes ≠ []) (fits : (h.absolute path).bytes.length ≤ Tree.longestPath) :
    h.lookup (h.anchor (h.absolute path)) = h.lookup (h.anchor path) := by
  rw [anchor_of_isAbsolute (h.isAbsolute_absolute path)]
  exact lookup_absolute_of_usable wf usable (anchor_ne_nil nonempty) fits

end Host

end LibraryHeaders
