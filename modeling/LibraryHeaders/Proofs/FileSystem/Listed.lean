import LibraryHeaders.Proofs.FileSystem.Absolute
import LibraryHeaders.Proofs.FileSystem.Obstacles

/-!
# Looking up what was listed

A header file that is listed below a directory can be looked up under the path that lists it, if
that path fits. The walk has looked up all links and directories on the way, so the last name alone
is new, and it meets no link. The path is seen as it is listed, too, unless the directory was itself
seen from a relative working directory.
-/

namespace LibraryHeaders

namespace Tree

variable {t : Tree} {p q d : Position} {xs ys zs : List Name} {k : Kind} {links : Nat}

/-- Where a walk comes to when it has further names behind the ones that it stopped at. -/
def Stop.further (t : Tree) (ys : List Name) : Stop → Stop
  | .arrived q k => t.advance q k ys
  | .refused fault => .refused fault
  | .met dir target rest => .met dir target (rest ++ ys)

theorem advance_append (t : Tree) (p : Position) (k : Kind) (xs ys : List Name) :
    t.advance p k (xs ++ ys) = (t.advance p k xs).further t ys := by
  induction xs generalizing p k with
  | nil => rfl
  | cons n xs ih =>
    cases k with
    | file i => rfl
    | dir =>
      rw [List.cons_append, advance, advance]
      split
      · exact ih p .dir
      split
      · exact ih p.dropLast .dir
      split
      · rfl
      · cases t.at? (p ++ [n]) with
        | none => rfl
        | some e =>
          cases e with
          | dir => exact ih (p ++ [n]) .dir
          | file i => exact ih (p ++ [n]) (.file i)
          | link target => rfl

/-- An empty name at most leads nowhere else. -/
theorem eq_of_advance_idle (idle : zs = [] ∨ zs = [[]]) {k' : Kind}
    (stopped : t.advance p k zs = .arrived q k') : p = q ∧ k = k' := by
  rcases idle with rfl | rfl
  · cases stopped
    exact ⟨rfl, rfl⟩
  · cases k with
    | dir =>
      cases stopped
      exact ⟨rfl, rfl⟩
    | file i => cases stopped

/-- Names that lead to a directory lead on from it, as far as no link is met. An empty name at their
end may be left out. -/
theorem follow_append (idle : zs = [] ∨ zs = [[]])
    (first : t.follow links p (xs ++ zs) = .ok (d, .dir))
    (second : t.advance d .dir ys = .arrived q k) : t.follow links p (xs ++ ys) = .ok (q, k) := by
  induction links using Nat.strongRecOn generalizing p xs with
  | ind links ih =>
    rw [follow.eq_def, advance_append] at first ⊢
    generalize t.advance p .dir xs = stop at first ⊢
    cases stop with
    | arrived r kind =>
      rw [Stop.further] at first ⊢
      split at first
      · rename_i stopped
        cases first
        obtain ⟨rfl, rfl⟩ := eq_of_advance_idle idle stopped
        rw [second]
      · cases first
      · rename_i stopped
        rcases idle with rfl | rfl <;> cases kind <;> cases stopped
    | refused fault => cases first
    | met dir target rest =>
      cases links with
      | zero => cases first
      | succ links =>
        rw [Stop.further] at first ⊢
        dsimp only at first ⊢
        rw [← List.append_assoc] at first ⊢
        exact ih links (Nat.lt_succ_self links) first

/-- A path that is resolved is not empty, and its names have been followed. -/
theorem follow_of_resolve {current : Position} {path : Path} {found : Position × Kind}
    (ok : t.resolve current path = .ok found) :
    path.bytes ≠ [] ∧ t.follow mostLinks (origin current path) path.parts = .ok found := by
  rw [resolve] at ok
  split at ok
  · cases ok
  split at ok
  · cases ok
  rename_i nonempty
  split at ok
  · cases ok
  · exact ⟨nonempty, ok⟩

end Tree

namespace Host

/-- No path that the walk below a root looks up ends it. -/
def ComesThrough (h : Host) (root : Path) : Prop :=
  ∀ n p, h.LooksUp root [] n p → ∀ fault, ¬ h.Blocks p fault

variable {h : Host} {root path p : Path} {dir q : Position} {names more front : List Name}
  {n : Name} {k : Kind} {i : Nat}

/-- A plain file in a directory that is found can be looked up. -/
theorem lookup_join_file (ok : h.lookup p = .ok (dir, .dir)) (plain : n.IsPlain)
    (entry : h.tree.at? (dir ++ [n]) = some (.file i)) (fits : (p.join ⟨n⟩).Fits) :
    h.lookup (p.join ⟨n⟩) = .ok (dir ++ [n], .file i) := by
  obtain ⟨nonempty, followed⟩ := Tree.follow_of_resolve ok
  have relative := Path.isAbsolute_single plain.slashless
  have single := Path.parts_single plain.slashless
  have short : n.length ≤ Tree.longestName := by
    refine (fits.of_join nonempty relative).names n ?_
    rw [single]
    exact List.mem_singleton_self n
  have step : h.tree.advance dir .dir [n] = .arrived (dir ++ [n]) (.file i) := by
    have ordinary := plain.ordinary
    rw [Tree.advance, if_neg (not_or.mpr ⟨ordinary.1, ordinary.2.1⟩), if_neg ordinary.2.2,
      if_neg (Nat.not_lt.mpr short), entry]
    rfl
  rw [lookup, Tree.resolve_of_fits (Path.join_ne_nil nonempty relative) fits,
    Tree.origin_join nonempty relative]
  rcases Path.parts_join nonempty relative with ⟨front, cut, joined⟩ | joined
  · rw [cut] at followed
    rw [joined, single]
    exact Tree.follow_append (Or.inr rfl) followed step
  · rw [← List.append_nil p.parts] at followed
    rw [joined, single]
    exact Tree.follow_append (Or.inl rfl) followed step

theorem lookup_of_not_blocks (free : ∀ fault, ¬ h.Blocks path fault) (leads : h.LeadsTo path q k) :
    h.lookup path = .ok (q, k) := by
  have spec := h.lookup_spec path
  cases result : h.lookup path with
  | ok found =>
    rw [result] at spec
    rw [← (leads.unique spec).1, ← (leads.unique spec).2]
  | error cause =>
    refine absurd ⟨cause, result, ?_, rfl⟩ (free (.walking path cause))
    rintro rfl
    exact not_leadsTo_of_noSuchFile result leads

/-- Where the walk goes on along some names, it looks up the entry that it asks for behind them. -/
theorem AsksFor.looksUp
    (goesOn : ∀ before m, before ++ [m] <+: more → h.GoesOn root (names ++ before) m)
    (asks : h.AsksFor root (names ++ more) n) :
    ∃ m, h.LooksUp root names m (root.below (names ++ more ++ [n])) := by
  induction more generalizing names with
  | nil =>
    rw [List.append_nil] at asks ⊢
    exact ⟨n, .entry asks⟩
  | cons m more ih =>
    rw [List.append_cons names m more] at asks ⊢
    have first := goesOn [] m ⟨more, rfl⟩
    rw [List.append_nil] at first
    have onward : ∀ before m', before ++ [m'] <+: more →
        h.GoesOn root (names ++ [m] ++ before) m' := by
      intro before m' cut
      rw [← List.append_cons]
      exact goesOn (m :: before) m' (List.cons_prefix_cons.mpr ⟨rfl, cut⟩)
    obtain ⟨m', later⟩ := ih onward asks
    exact ⟨m, .further first later⟩

/-- An entry that a walk asks for, and comes through, has been looked up. -/
theorem lookup_of_asksFor (free : h.ComesThrough root)
    (goesOn : ∀ before m, before ++ [m] <+: names → h.GoesOn root before m)
    (asks : h.AsksFor root names n) (leads : h.LeadsTo (root.below (names ++ [n])) q k) :
    h.lookup (root.below (names ++ [n])) = .ok (q, k) := by
  have fromRoot : h.AsksFor root ([] ++ names) n := asks
  obtain ⟨m, looksUp⟩ := fromRoot.looksUp goesOn
  exact lookup_of_not_blocks (free m _ looksUp) leads

/-- So has every directory on its way. -/
theorem lookup_of_goesOn (wf : h.WellFormed) (here : h.lookup root = .ok (dir, .dir))
    (free : h.ComesThrough root)
    (goesOn : ∀ before m, before ++ [m] <+: names → h.GoesOn root before m)
    (leads : h.LeadsTo (root.below names) q .dir) :
    h.lookup (root.below names) = .ok (q, .dir) := by
  cases names using List.reverseRecOn with
  | nil =>
    have spec := h.lookup_spec root
    rw [here] at spec
    rwa [(LeadsTo.unique leads spec).1] at here
  | append_singleton names n =>
    have step := goesOn names n List.prefix_rfl
    obtain ⟨d, e, inside, stands⟩ := step.entry
    have asks : h.AsksFor root names n := by
      refine ⟨d, e, inside, stands, ?_, fun _ => step.visible⟩
      rintro j rfl
      have plain : n.IsPlain := wf.tree.plain_of_at? stands n (by simp)
      have toFile : h.LeadsTo (root.below (names ++ [n])) (d ++ [n]) (.file j) :=
        (leadsTo_concat_iff inside plain).mpr (.file plain.ordinary stands)
      exact toFile.not_dir leads
    exact lookup_of_asksFor free
      (fun before m cut => goesOn before m (cut.trans (List.prefix_append _ _))) asks leads

/-- A header file that a walk finds, and comes through, can be looked up if its path fits. -/
theorem lookup_of_finds (wf : h.WellFormed) (here : h.lookup root = .ok (dir, .dir))
    (free : h.ComesThrough root) (finds : h.Finds root [] (front ++ [n]))
    (fits : (root.below (front ++ [n])).Fits) :
    ∃ q i, h.lookup (root.below (front ++ [n])) = .ok (q, .file i) := by
  obtain ⟨q, i, leads⟩ := finds.file
  have goesOn : ∀ before m, before ++ [m] <+: front ++ [n] → h.GoesOn root before m := finds.goesOn
  have earlier : ∀ before m, before ++ [m] <+: front → h.GoesOn root before m :=
    fun before m cut => goesOn before m (cut.trans (List.prefix_append _ _))
  have last := goesOn front n List.prefix_rfl
  obtain ⟨d, e, inside, entry⟩ := last.entry
  cases e with
  | file j =>
    have found := lookup_of_goesOn wf here free earlier inside
    rw [Path.below_concat] at fits ⊢
    exact ⟨_, j, lookup_join_file found (wf.tree.plain_of_at? entry n (by simp)) entry fits⟩
  | dir =>
    have asks := asksFor_dir inside entry last.visible
    exact ⟨q, i, lookup_of_asksFor free earlier asks leads⟩
  | link target =>
    have asks := asksFor_link inside entry
    exact ⟨q, i, lookup_of_asksFor free earlier asks leads⟩

/-- What is listed below a directory is what the walk through it comes back with. -/
theorem walk_of_headersBelow {found : List Path} (isDir : h.fileSystem.isDir path = true)
    (listed : h.fileSystem.headersBelow path = .ok found) :
    ∃ q paths, h.lookup (h.anchor path) = .ok (q, .dir) ∧
      h.walk (h.anchor path) (h.tree.directories.erase q) q [] = .ok paths ∧
      found = (paths.mergeSort Name.pathLe).map (h.anchor path).below := by
  obtain ⟨q, here⟩ := isDir_iff.mp isDir
  rw [headersBelow_eq_of_dir here] at listed
  cases walked : h.walk (h.anchor path) (h.tree.directories.erase q) q [] with
  | error fault =>
    rw [walked] at listed
    cases listed
  | ok paths =>
    rw [walked] at listed
    cases listed
    exact ⟨q, paths, here, walked, rfl⟩

/-- Every path that is listed below a directory is one along which the walk finds a header file. -/
theorem finds_of_listed (wf : h.WellFormed) {found : List Path}
    (isDir : h.fileSystem.isDir path = true)
    (listed : h.fileSystem.headersBelow path = .ok found) (mem : p ∈ found) :
    ∃ dir front n, h.lookup (h.anchor path) = .ok (dir, .dir) ∧ h.ComesThrough (h.anchor path) ∧
      h.Finds (h.anchor path) [] (front ++ [n]) ∧ p = (h.anchor path).below (front ++ [n]) := by
  obtain ⟨q, paths, here, walked, rfl⟩ := walk_of_headersBelow isDir listed
  obtain ⟨names, inPaths, rfl⟩ := List.mem_map.mp mem
  have leads := h.lookup_spec (h.anchor path)
  rw [here] at leads
  have inside := inside_root wf leads
  have explains := walk_explains wf _ _ q [] inside
  rw [walked] at explains
  have lists := walk_lists wf _ _ q [] inside walked
  obtain ⟨more, nonempty, rfl, finds⟩ := (lists.mem_iff names).mp (List.mem_mergeSort.mp inPaths)
  obtain ⟨front, n, rfl⟩ := (List.eq_nil_or_concat' names).resolve_left nonempty
  exact ⟨q, front, n, here, fun n p looksUp => explains p ⟨n, looksUp⟩, finds, rfl⟩

/-- A listed file can be looked up under the path that lists it, if that path fits. -/
theorem lookup_of_listed (wf : h.WellFormed) {found : List Path}
    (isDir : h.fileSystem.isDir path = true)
    (listed : h.fileSystem.headersBelow path = .ok found) (mem : p ∈ found) (fits : p.Fits) :
    ∃ q i, h.lookup p = .ok (q, .file i) := by
  obtain ⟨dir, front, n, here, free, finds, rfl⟩ := finds_of_listed wf isDir listed mem
  exact lookup_of_finds wf here free finds fits

/-- What is listed below a path is not seen from the working directory once more. -/
def AnchorsOnce (h : Host) (path : Path) : Prop :=
  h.workingDir = none ∨ (h.anchor path).isAbsolute = true

instance (h : Host) (path : Path) : Decidable (h.AnchorsOnce path) :=
  inferInstanceAs (Decidable (_ ∨ _))

theorem anchor_of_listed (wf : h.WellFormed) {found : List Path}
    (isDir : h.fileSystem.isDir path = true)
    (listed : h.fileSystem.headersBelow path = .ok found) (mem : p ∈ found)
    (once : h.AnchorsOnce path) : h.anchor p = p := by
  obtain ⟨dir, front, n, here, -, finds, rfl⟩ := finds_of_listed wf isDir listed mem
  rcases once with unset | absolute
  · rw [anchor, unset]
  · have nonempty : (h.anchor path).bytes ≠ [] := (Tree.follow_of_resolve here).1
    refine anchor_of_isAbsolute ?_
    rw [Path.isAbsolute_below nonempty (finds.plain wf), absolute]

/-- So a listed file is found when its path is seen from the working directory again. -/
theorem lookup_anchor_of_listed (wf : h.WellFormed) {found : List Path}
    (isDir : h.fileSystem.isDir path = true)
    (listed : h.fileSystem.headersBelow path = .ok found) (mem : p ∈ found)
    (once : h.AnchorsOnce path) (fits : (h.anchor p).Fits) :
    ∃ q i, h.lookup (h.anchor p) = .ok (q, .file i) := by
  rw [anchor_of_listed wf isDir listed mem once] at fits ⊢
  exact lookup_of_listed wf isDir listed mem fits

end Host

end LibraryHeaders
