import LibraryHeaders.Proofs.FileSystem.WellFormed
import LibraryHeaders.Proofs.Conservation

/-!
# Walking through a directory

Which files a walk finds, said through where paths lead and apart from the walk. From every
directory the walk goes on to each entry that is not hidden, unless it is a link back to a directory
that the walk is inside of. The walk carries a list of the other directories, which are fresh; a
directory is fresh if no path from the root to the current entry leads to it. Plain directories are
entered even if they are not fresh, so the walk may come to one position more than once, but never
along the same names.
-/

namespace LibraryHeaders.Host

/-- The tree of a host is one, and the program runs in a directory of it. -/
structure WellFormed (h : Host) : Prop where
  tree : h.tree.WellFormed
  current : h.tree.at? h.current = some .dir

instance (h : Host) : Decidable h.WellFormed :=
  decidable_of_iff (h.tree.WellFormed ∧ h.tree.at? h.current = some .dir)
    ⟨fun h => ⟨h.1, h.2⟩, fun h => ⟨h.tree, h.current⟩⟩

/-- What an anchored path leads to, apart from the limits of the system. -/
def LeadsTo (h : Host) (path : Path) (q : Position) (k : Kind) : Prop :=
  h.tree.LeadsTo h.current path q k

/-- The walk below `root` that has come along some names goes on to the next one. -/
structure GoesOn (h : Host) (root : Path) (before : List Name) (n : Name) : Prop where
  visible : n.isHidden = false
  entry : ∃ dir e, h.LeadsTo (root.below before) dir .dir ∧ h.tree.at? (dir ++ [n]) = some e
  /-- A link to a directory leads to none that the walk is inside of. -/
  noReturn : ∀ dir target q, h.LeadsTo (root.below before) dir .dir →
    h.tree.at? (dir ++ [n]) = some (.link target) → h.LeadsTo (root.below (before ++ [n])) q .dir →
    ∀ earlier, earlier <+: before → ¬ h.LeadsTo (root.below earlier) q .dir

/-- The walk below `root` that has come along some names finds a header file along further ones. -/
structure Finds (h : Host) (root : Path) (names more : List Name) : Prop where
  goesOn : ∀ before n, before ++ [n] <+: more → h.GoesOn root (names ++ before) n
  file : ∃ q i, h.LeadsTo (root.below (names ++ more)) q (.file i)
  header : ∃ e ∈ Name.headerExtensions, (root.below (names ++ more)).HasExtension e

variable {h : Host} {root : Path} {fresh : List Position} {dir q : Position}
  {names more : List Name} {n : Name} {k : Kind}

/-- An anchored path leads nowhere, and for this reason. -/
def StraysTo (h : Host) (path : Path) (fault : FileFault) : Prop :=
  h.tree.StraysTo h.current path fault

theorem lookup_spec (h : Host) (path : Path) :
    match h.lookup path with
    | .ok (q, k) => h.LeadsTo path q k
    | .error fault => fault.IsLimit ∨ h.StraysTo path fault :=
  h.tree.resolve_spec h.current path

theorem isDir_iff {path : Path} :
    h.fileSystem.isDir path = true ↔ ∃ q, h.lookup (h.anchor path) = .ok (q, .dir) := by
  simp only [fileSystem]
  cases h.lookup (h.anchor path) with
  | error fault => simp
  | ok found =>
    obtain ⟨q, k⟩ := found
    cases k <;> simp

theorem isFile_iff {path : Path} :
    h.fileSystem.isFile path = true ↔ ∃ q i, h.lookup (h.anchor path) = .ok (q, .file i) := by
  simp only [fileSystem]
  cases h.lookup (h.anchor path) with
  | error fault => simp
  | ok found =>
    obtain ⟨q, k⟩ := found
    cases k <;> simp

theorem identity_of_lookup {path : Path} {i : Nat}
    (file : h.lookup (h.anchor path) = .ok (q, .file i)) :
    h.fileSystem.identity path = some (.number i) := by
  simp only [fileSystem, file]

/-- The header files below a directory are those that a walk through it finds. -/
theorem headersBelow_eq_of_dir {path : Path} (here : h.lookup (h.anchor path) = .ok (q, .dir)) :
    h.fileSystem.headersBelow path =
      (h.walk (h.anchor path) (h.tree.directories.erase q) q []).map fun found =>
        (found.mergeSort Name.pathLe).map (h.anchor path).below := by
  simp only [fileSystem, headersBelow, here]

theorem not_leadsTo_of_noSuchFile {path : Path} (absent : h.lookup path = .error .noSuchFile) :
    ¬ h.LeadsTo path q k := by
  have spec := h.lookup_spec path
  rw [absent] at spec
  exact (spec.resolve_left (by decide)).not_leadsTo

theorem LeadsTo.unique {path : Path} {q' : Position} {k' : Kind} (leads : h.LeadsTo path q k)
    (leads' : h.LeadsTo path q' k') : q' = q ∧ k' = k :=
  Tree.LeadsTo.unique leads leads'

/-- A path leads to a file or to a directory. -/
theorem LeadsTo.not_dir {path : Path} {i : Nat} {q' : Position}
    (leads : h.LeadsTo path q (.file i)) : ¬ h.LeadsTo path q' .dir := by
  intro leads'
  cases (leads.unique leads').2

theorem WellFormed.at?_of_leadsTo (wf : h.WellFormed) {path : Path}
    (leads : h.LeadsTo path q .dir) : h.tree.at? q = some .dir := by
  refine wf.tree.at?_of_leads ?_ leads.2
  rw [Tree.origin]
  split
  · exact h.tree.at?_nil
  · exact wf.current

/-- One name more leads on from the directory that the walk has come to. -/
theorem leadsTo_concat_iff (here : h.LeadsTo (root.below names) dir .dir) (plain : n.IsPlain) :
    h.LeadsTo (root.below (names ++ [n])) q k ↔ h.tree.Leads dir [n] q k := by
  rw [LeadsTo, Path.below_concat,
    Tree.leadsTo_join_iff here.1 (Path.isAbsolute_single plain.slashless),
    Path.parts_single plain.slashless]
  constructor
  · rintro ⟨d, leads, onward⟩
    rw [← (here.unique leads).1]
    exact onward
  · intro onward
    exact ⟨dir, here, onward⟩

/-- The first of further names, and those behind it. -/
theorem finds_cons_iff :
    h.Finds root names (n :: more) ↔ h.GoesOn root names n ∧ h.Finds root (names ++ [n]) more := by
  have shift (before : List Name) : (names ++ [n]) ++ before = names ++ n :: before := by
    rw [List.append_assoc, List.singleton_append]
  constructor
  · rintro ⟨goesOn, file, header⟩
    refine ⟨?_, ?_, ?_, ?_⟩
    · have first := goesOn [] n ⟨more, rfl⟩
      rwa [List.append_nil] at first
    · intro before m cut
      rw [shift]
      exact goesOn (n :: before) m (List.cons_prefix_cons.mpr ⟨rfl, cut⟩)
    · rw [shift]
      exact file
    · rw [shift]
      exact header
  · rintro ⟨first, goesOn, file, header⟩
    rw [shift] at file header
    refine ⟨?_, file, header⟩
    intro before m cut
    cases before with
    | nil =>
      cases (List.cons_prefix_cons.mp cut).1
      rwa [List.append_nil]
    | cons b before =>
      obtain ⟨rfl, later⟩ := List.cons_prefix_cons.mp cut
      rw [← shift]
      exact goesOn before m later

/-- The walk along `names` has come to a directory, and the directories on its way are not fresh. -/
structure Inside (h : Host) (root : Path) (fresh : List Position) (dir : Position)
    (names : List Name) : Prop where
  here : h.LeadsTo (root.below names) dir .dir
  distinct : fresh.Nodup
  mem_fresh_iff : ∀ q, q ∈ fresh ↔ h.tree.at? q = some .dir ∧
    ∀ earlier, earlier <+: names → ¬ h.LeadsTo (root.below earlier) q .dir

/-- The step: entering a directory takes it from the fresh ones. -/
theorem Inside.enter (inside : h.Inside root fresh dir names)
    (leads : h.LeadsTo (root.below (names ++ [n])) q .dir) :
    h.Inside root (fresh.erase q) q (names ++ [n]) := by
  refine ⟨leads, inside.distinct.erase q, ?_⟩
  intro x
  rw [inside.distinct.mem_erase_iff, inside.mem_fresh_iff]
  constructor
  · rintro ⟨other, isDir, outside⟩
    refine ⟨isDir, ?_⟩
    intro earlier cut leads'
    rcases List.prefix_concat_iff.mp cut with rfl | cut
    · exact other (leads.unique leads').1
    · exact outside earlier cut leads'
  · rintro ⟨isDir, outside⟩
    refine ⟨?_, isDir, ?_⟩
    · rintro rfl
      exact outside _ List.prefix_rfl leads
    · intro earlier cut
      exact outside earlier (cut.trans (List.prefix_append _ _))

/-- The walk finds a header file along these names, which go through an entry where it has come. -/
def FindsAt (h : Host) (root : Path) (names : List Name) (n : Name) (ns : List Name) : Prop :=
  ∃ more, ns = names ++ n :: more ∧ h.Finds root names (n :: more)

/-- What the walk has to find at an entry, each header file once. -/
structure ListsEntry (h : Host) (root : Path) (names : List Name) (n : Name)
    (found : List (List Name)) : Prop where
  distinct : found.Nodup
  mem_iff : ∀ ns, ns ∈ found ↔ h.FindsAt root names n ns

/-- What the walk has to find in a directory, each header file once. -/
structure ListsBelow (h : Host) (root : Path) (names : List Name) (found : List (List Name)) :
    Prop where
  distinct : found.Nodup
  mem_iff : ∀ ns, ns ∈ found ↔ ∃ more, more ≠ [] ∧ ns = names ++ more ∧ h.Finds root names more

/-- Nothing is to be found where the walk does not go on. -/
theorem listsEntry_nil_of_not_goesOn (stops : ¬ h.GoesOn root names n) :
    h.ListsEntry root names n [] := by
  refine ⟨List.nodup_nil, ?_⟩
  intro ns
  refine iff_of_false List.not_mem_nil ?_
  rintro ⟨more, -, finds⟩
  exact stops (finds_cons_iff.mp finds).1

/-- Nothing is to be found behind a link that leads nowhere. -/
theorem listsEntry_nil_of_not_leadsTo
    (nowhere : ∀ q k, ¬ h.LeadsTo (root.below (names ++ [n])) q k) :
    h.ListsEntry root names n [] := by
  refine ⟨List.nodup_nil, ?_⟩
  intro ns
  refine iff_of_false List.not_mem_nil ?_
  rintro ⟨more, -, finds⟩
  have onward := (finds_cons_iff.mp finds).2
  cases more with
  | nil =>
    obtain ⟨q, i, leads⟩ := onward.file
    rw [List.append_nil] at leads
    exact nowhere q _ leads
  | cons m more =>
    obtain ⟨dir, e, leads, -⟩ := (finds_cons_iff.mp onward).1.entry
    exact nowhere dir _ leads

/-- Along names that lead to a file the walk finds that file only, if it is a header file and not
hidden. -/
theorem finds_file_iff (here : h.LeadsTo (root.below names) dir .dir) (plain : n.IsPlain)
    {e : Entry} (entry : h.tree.at? (dir ++ [n]) = some e) {i : Nat}
    (leads : h.LeadsTo (root.below (names ++ [n])) q (.file i)) :
    h.Finds root names (n :: more) ↔ more = [] ∧ n.isHidden = false ∧ n.isHeader = true := by
  have header : (root.below (names ++ [n])).isHeader = n.isHeader := by
    rw [Path.below_concat]
    exact Path.isHeader_join here.1 plain
  rw [finds_cons_iff]
  constructor
  · rintro ⟨goesOn, onward⟩
    cases more with
    | nil =>
      have isHeader := onward.header
      rw [List.append_nil, ← Path.isHeader_iff, header] at isHeader
      exact ⟨rfl, goesOn.visible, isHeader⟩
    | cons m more =>
      obtain ⟨dir', _, leads', -⟩ := (finds_cons_iff.mp onward).1.entry
      exact absurd leads' leads.not_dir
  · rintro ⟨rfl, visible, isHeader⟩
    refine ⟨⟨visible, ⟨dir, e, here, entry⟩, ?_⟩, ?_, ?_, ?_⟩
    · intro _ _ q' _ _ toDir
      exact absurd toDir leads.not_dir
    · intro before m cut
      exact absurd (List.prefix_nil.mp cut) (List.concat_ne_nil _ _)
    · rw [List.append_nil]
      exact ⟨q, i, leads⟩
    · rw [List.append_nil, ← Path.isHeader_iff, header]
      exact isHeader

theorem listsEntry_file (here : h.LeadsTo (root.below names) dir .dir) (plain : n.IsPlain)
    {e : Entry} (entry : h.tree.at? (dir ++ [n]) = some e) {i : Nat}
    (leads : h.LeadsTo (root.below (names ++ [n])) q (.file i)) :
    h.ListsEntry root names n (if !n.isHidden && n.isHeader then [names ++ [n]] else []) := by
  simp only [Bool.and_eq_true, Bool.not_eq_true']
  split
  · rename_i shown
    refine ⟨List.nodup_singleton _, ?_⟩
    intro ns
    simp only [FindsAt, finds_file_iff here plain entry leads, shown, List.mem_singleton, and_true]
    constructor
    · rintro rfl
      exact ⟨[], rfl, rfl⟩
    · rintro ⟨more, rfl, rfl⟩
      rfl
  · rename_i other
    refine ⟨List.nodup_nil, ?_⟩
    intro ns
    refine iff_of_false List.not_mem_nil ?_
    rintro ⟨more, -, finds⟩
    exact other ((finds_file_iff here plain entry leads).mp finds).2

/-- In a directory that the walk enters, everything is found that is found below it. -/
theorem ListsBelow.listsEntry {found : List (List Name)} (goesOn : h.GoesOn root names n)
    (leads : h.LeadsTo (root.below (names ++ [n])) q .dir)
    (below : h.ListsBelow root (names ++ [n]) found) : h.ListsEntry root names n found := by
  refine ⟨below.distinct, ?_⟩
  intro ns
  rw [below.mem_iff]
  simp only [FindsAt, finds_cons_iff, goesOn, true_and, List.append_assoc, List.singleton_append]
  constructor
  · rintro ⟨more, -, same, finds⟩
    exact ⟨more, same, finds⟩
  · rintro ⟨more, same, finds⟩
    refine ⟨more, ?_, same, finds⟩
    rintro rfl
    obtain ⟨q', i, toFile⟩ := finds.file
    rw [List.append_nil] at toFile
    exact toFile.not_dir leads

/-- What the walk finds at one entry of a directory. -/
def visit (h : Host) (root : Path) (fresh : List Position) (dir : Position) (names : List Name)
    (n : Name) (e : Entry) : Except FileFault (List (List Name)) :=
  let here := names ++ [n]
  let file : List (List Name) := if !n.isHidden && n.isHeader then [here] else []
  match e with
  | .file _ => .ok file
  | .dir =>
    if n.isHidden then .ok []
    else match h.lookup (root.below here) with
      | .error fault => .error (.walking (root.below here) fault)
      | .ok _ => h.walk root (fresh.erase (dir ++ [n])) (dir ++ [n]) here
  | .link _ =>
    match h.lookup (root.below here) with
    | .ok (_, .file _) => .ok file
    | .ok (target, .dir) =>
      if fresh.contains target && !n.isHidden then h.walk root (fresh.erase target) target here
      else .ok []
    | .error fault =>
      if fault = .noSuchFile then .ok [] else .error (.walking (root.below here) fault)

/-- A walk through a directory visits its entries one after the other. -/
theorem walk_eq (h : Host) (root : Path) (fresh : List Position) (dir : Position)
    (names : List Name) :
    h.walk root fresh dir names =
      ((h.tree.children dir).mapM fun e =>
        h.visit root fresh dir names e.1 e.2).map List.flatten := by
  rw [walk]
  have entries : (h.tree.children dir).attach.unattach = h.tree.children dir := List.unattach_attach
  rw [List.mapM_subtype (g := fun e => h.visit root fresh dir names e.1 e.2), entries]
  · cases (h.tree.children dir).mapM fun e => h.visit root fresh dir names e.1 e.2 <;> rfl
  · rintro ⟨n, e⟩ mem
    cases e with
    | file => rfl
    | dir =>
      dsimp only [visit]
      cases h.lookup (root.below (names ++ [n])) <;> rfl
    | link =>
      dsimp only [visit]
      rcases h.lookup (root.below (names ++ [n])) with fault | ⟨q, k⟩
      · cases fault <;> rfl
      · cases k with
        | file => rfl
        | dir => simp only [Bool.and_eq_true, List.contains_iff_mem]

/-- The walk goes on to an entry that is not hidden if it may come to where that leads. -/
theorem Inside.goesOn (inside : h.Inside root fresh dir names) (visible : n.isHidden = false)
    {e : Entry} (entry : h.tree.at? (dir ++ [n]) = some e)
    (noReturn : ∀ target, e = .link target → ∀ q, h.LeadsTo (root.below (names ++ [n])) q .dir →
      ∀ earlier, earlier <+: names → ¬ h.LeadsTo (root.below earlier) q .dir) :
    h.GoesOn root names n := by
  refine ⟨visible, ⟨dir, e, inside.here, entry⟩, ?_⟩
  intro dir' target q leads' isLink
  rw [(inside.here.unique leads').1, entry] at isLink
  exact noReturn target (Option.some.inj isLink) q

/-- At every entry the walk finds what it has to find, provided that it does so below the directory
that it enters there. -/
theorem visit_lists (wf : h.WellFormed) (inside : h.Inside root fresh dir names) {e : Entry}
    (entry : h.tree.at? (dir ++ [n]) = some e)
    (enters : ∀ q found, (e = .dir ∧ q = dir ++ [n]) ∨ (q ∈ fresh ∧ n.isHidden = false) →
      h.Inside root (fresh.erase q) q (names ++ [n]) →
      h.walk root (fresh.erase q) q (names ++ [n]) = .ok found →
      h.ListsBelow root (names ++ [n]) found)
    {found : List (List Name)} (visited : h.visit root fresh dir names n e = .ok found) :
    h.ListsEntry root names n found := by
  have plain : n.IsPlain := wf.tree.plain_of_at? entry n (by simp)
  cases e with
  | file i =>
    have leads : h.LeadsTo (root.below (names ++ [n])) (dir ++ [n]) (.file i) :=
      (leadsTo_concat_iff inside.here plain).mpr (.file plain.ordinary entry)
    cases visited
    exact listsEntry_file inside.here plain entry leads
  | dir =>
    have leads : h.LeadsTo (root.below (names ++ [n])) (dir ++ [n]) .dir :=
      (leadsTo_concat_iff inside.here plain).mpr (.dir plain.ordinary entry .here)
    rw [visit] at visited
    cases visible : n.isHidden with
    | true =>
      rw [if_pos visible] at visited
      cases visited
      refine listsEntry_nil_of_not_goesOn fun goesOn => ?_
      rw [goesOn.visible] at visible
      cases visible
    | false =>
      rw [if_neg (by rw [visible]; exact Bool.false_ne_true)] at visited
      split at visited
      · cases visited
      · have below := enters _ found (Or.inl ⟨rfl, rfl⟩) (inside.enter leads) visited
        exact below.listsEntry (inside.goesOn visible entry nofun) leads
  | link target =>
    have spec := h.lookup_spec (root.below (names ++ [n]))
    rw [visit] at visited
    split at visited
    · rename_i q i result
      rw [result] at spec
      cases visited
      exact listsEntry_file inside.here plain entry spec
    · rename_i q result
      rw [result] at spec
      simp only [Bool.and_eq_true, List.contains_iff_mem, Bool.not_eq_true'] at visited
      split at visited
      · rename_i goes
        obtain ⟨isFresh, visible⟩ := goes
        have below := enters q found (Or.inr ⟨isFresh, visible⟩) (inside.enter spec) visited
        refine below.listsEntry (inside.goesOn visible entry ?_) spec
        intro _ _ q' leads'
        rw [(LeadsTo.unique spec leads').1]
        exact ((inside.mem_fresh_iff q).mp isFresh).2
      · rename_i stays
        cases visited
        refine listsEntry_nil_of_not_goesOn fun goesOn => stays ⟨?_, goesOn.visible⟩
        rw [inside.mem_fresh_iff]
        exact ⟨wf.at?_of_leadsTo spec, goesOn.noReturn dir target q inside.here entry spec⟩
    · rename_i fault result
      rw [result] at spec
      split at visited
      · rename_i absent
        cases visited
        subst absent
        exact listsEntry_nil_of_not_leadsTo fun _ _ => not_leadsTo_of_noSuchFile result
      · cases visited

/-- What some items give together, where each gives certain things once and no two items give the
same. -/
theorem mapM_flatten_spec {ε α β : Type} {f : α → Except ε (List β)} (gives : α → β → Prop)
    {items : List α} {results : List (List β)} (ok : items.mapM f = .ok results)
    (each : ∀ a ∈ items, ∀ part, f a = .ok part → part.Nodup ∧ ∀ b, b ∈ part ↔ gives a b)
    (apart : items.Pairwise fun a a' => ∀ b, gives a b → ¬ gives a' b) :
    results.flatten.Nodup ∧ ∀ b, b ∈ results.flatten ↔ ∃ a ∈ items, gives a b := by
  induction items generalizing results with
  | nil =>
    cases ok
    simp
  | cons item items ih =>
    rw [List.mapM_cons] at ok
    obtain ⟨part, first, ok⟩ := bind_eq_ok.mp ok
    obtain ⟨parts, rest, ok⟩ := bind_eq_ok.mp ok
    cases ok
    obtain ⟨others, apart⟩ := List.pairwise_cons.mp apart
    obtain ⟨distinct, mem_part⟩ := each item List.mem_cons_self part first
    obtain ⟨distinctRest, mem_rest⟩ :=
      ih rest (fun a ha => each a (List.mem_cons_of_mem _ ha)) apart
    constructor
    · rw [List.flatten_cons, List.nodup_append]
      refine ⟨distinct, distinctRest, ?_⟩
      rintro b inPart b' inRest rfl
      obtain ⟨a, ha, given⟩ := (mem_rest b).mp inRest
      exact others a ha b ((mem_part b).mp inPart) given
    · intro b
      rw [List.flatten_cons, List.mem_append, mem_part, mem_rest, List.exists_mem_cons_iff]

/-- The run: a walk that comes through finds what it has to find. -/
theorem walk_lists (wf : h.WellFormed) (root : Path) (fresh : List Position) (dir : Position)
    (names : List Name) {found : List (List Name)} (inside : h.Inside root fresh dir names)
    (walked : h.walk root fresh dir names = .ok found) : h.ListsBelow root names found := by
  induction fresh, dir, names using Host.walk.induct (h := h) generalizing found with
  | case1 fresh dir names entersDir entersLink =>
    rw [walk_eq] at walked
    cases visited : (h.tree.children dir).mapM fun e => h.visit root fresh dir names e.1 e.2 with
    | error fault =>
      rw [visited] at walked
      cases walked
    | ok parts =>
      rw [visited] at walked
      cases walked
      have each : ∀ a ∈ h.tree.children dir, ∀ part,
          h.visit root fresh dir names a.1 a.2 = .ok part →
          part.Nodup ∧ ∀ ns, ns ∈ part ↔ h.FindsAt root names a.1 ns := by
        rintro ⟨n, e⟩ child part found
        have entry := wf.tree.mem_children_iff.mp child
        have lists : h.ListsEntry root names n part := by
          refine visit_lists wf inside entry ?_ found
          rintro q found (⟨rfl, rfl⟩ | ⟨isFresh, visible⟩) inside' walked
          · exact entersDir n child inside' walked
          · exact entersLink n q ⟨isFresh, by rw [visible]; rfl⟩ inside' walked
        exact ⟨lists.distinct, lists.mem_iff⟩
      have apart : (h.tree.children dir).Pairwise fun a b => ∀ ns,
          h.FindsAt root names a.1 ns → ¬ h.FindsAt root names b.1 ns := by
        refine (wf.tree.children_distinct dir).imp ?_
        rintro a b other ns ⟨more, rfl, -⟩ ⟨more', same, -⟩
        exact other (List.cons_eq_cons.mp (List.append_cancel_left same)).1
      obtain ⟨distinct, mem_iff⟩ :=
        mapM_flatten_spec (fun a => h.FindsAt root names a.1) visited each apart
      refine ⟨distinct, ?_⟩
      intro ns
      rw [mem_iff]
      constructor
      · rintro ⟨⟨n, e⟩, -, more, same, finds⟩
        exact ⟨n :: more, List.cons_ne_nil _ _, same, finds⟩
      · rintro ⟨_ | ⟨n, more⟩, nonempty, same, finds⟩
        · exact absurd rfl nonempty
        · obtain ⟨dir', e, leads, entry⟩ := (finds_cons_iff.mp finds).1.entry
          rw [(inside.here.unique leads).1] at entry
          exact ⟨(n, e), wf.tree.mem_children_iff.mpr entry, more, same, finds⟩

end LibraryHeaders.Host
