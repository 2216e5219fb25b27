import LibraryHeaders.Proofs.FileSystem.Enumeration

/-!
# What ends a walk

A walk through a directory looks up every link that it meets, hidden or not, and every directory
that is not hidden. An entry that leads somewhere lets the walk go on or is passed over, and so is a
link that strays to a name that no entry has. Every other entry ends the walk: a link that leads in
a circle of links, a link that goes on behind a file, and an entry that the system does not look for
because of a limit. So the header files below a directory can be listed exactly if the walk looks up
no such entry.
-/

namespace LibraryHeaders

/-- Items are gone through until one makes a fault. -/
theorem mapM_outcome {ε α β : Type} (f : α → Except ε β) (items : List α) :
    match items.mapM f with
    | .ok _ => ∀ a ∈ items, ∃ b, f a = .ok b
    | .error e => ∃ a ∈ items, f a = .error e := by
  induction items with
  | nil => exact nofun
  | cons item items ih =>
    rw [List.mapM_cons]
    cases first : f item with
    | error e => exact ⟨item, List.mem_cons_self, first⟩
    | ok b =>
      cases rest : items.mapM f with
      | error e =>
        rw [rest] at ih
        obtain ⟨a, mem, failed⟩ := ih
        exact ⟨a, List.mem_cons_of_mem item mem, failed⟩
      | ok bs =>
        rw [rest] at ih
        exact List.forall_mem_cons.mpr ⟨⟨b, first⟩, ih⟩

namespace Host

/-- The walk below `root` that has come along some names asks the system about an entry there: about
a link, and about a directory that is not hidden. -/
structure AsksFor (h : Host) (root : Path) (names : List Name) (n : Name) : Prop where
  entry : ∃ dir e, h.LeadsTo (root.below names) dir .dir ∧ h.tree.at? (dir ++ [n]) = some e ∧
    (∀ i, e ≠ .file i) ∧ (e = .dir → n.isHidden = false)

/-- The walk below `root` that has come along some names looks up a path when it comes to an entry,
or further on behind this entry. -/
inductive LooksUp (h : Host) (root : Path) : List Name → Name → Path → Prop where
  | entry {names : List Name} {n : Name} (asks : h.AsksFor root names n) :
      LooksUp h root names n (root.below (names ++ [n]))
  | further {names : List Name} {n m : Name} {path : Path} (goesOn : h.GoesOn root names n)
      (later : LooksUp h root (names ++ [n]) m path) : LooksUp h root names n path

/-- The system refuses a path for another reason than that there is no such file, and a walk that
looks it up ends with this fault. -/
def Blocks (h : Host) (path : Path) (fault : FileFault) : Prop :=
  ∃ cause, h.lookup path = .error cause ∧ cause ≠ .noSuchFile ∧ fault = .walking path cause

/-- A path leads somewhere or strays to a name that no entry has, and it meets no limit. -/
structure Passable (h : Host) (path : Path) : Prop where
  ends : (∃ q k, h.LeadsTo path q k) ∨ h.StraysTo path .noSuchFile
  within : ∀ fault, h.lookup path = .error fault → ¬ fault.IsLimit

variable {h : Host} {root path : Path} {fresh : List Position} {dir q : Position}
  {names : List Name} {n : Name} {k : Kind} {fault : FileFault}

theorem passable_iff : h.Passable path ↔ ∀ fault, ¬ h.Blocks path fault := by
  have spec := h.lookup_spec path
  constructor
  · rintro ⟨ends, within⟩ fault ⟨cause, refused, other, rfl⟩
    rw [refused] at spec
    have strays := spec.resolve_left (within cause refused)
    rcases ends with ⟨q, k, leads⟩ | absent
    · exact strays.not_leadsTo leads
    · exact other (absent.unique strays)
  · intro free
    cases result : h.lookup path with
    | ok arrived =>
      rw [result] at spec
      refine ⟨Or.inl ⟨_, _, spec⟩, ?_⟩
      intro fault refused
      rw [result] at refused
      cases refused
    | error cause =>
      rw [result] at spec
      have absent : cause = .noSuchFile := by
        by_contra other
        exact free _ ⟨cause, result, other, rfl⟩
      subst absent
      refine ⟨Or.inr (spec.resolve_left (by decide)), ?_⟩
      intro fault refused
      rw [result] at refused
      cases refused
      decide

theorem not_blocks_of_ok {found : Position × Kind} (ok : h.lookup path = .ok found) :
    ¬ h.Blocks path fault := by
  rintro ⟨cause, refused, -⟩
  rw [ok] at refused
  cases refused

theorem not_blocks_of_noSuchFile (absent : h.lookup path = .error .noSuchFile) :
    ¬ h.Blocks path fault := by
  rintro ⟨cause, refused, other, -⟩
  rw [absent] at refused
  cases refused
  exact other rfl

theorem asksFor_dir (here : h.LeadsTo (root.below names) dir .dir)
    (entry : h.tree.at? (dir ++ [n]) = some .dir) (visible : n.isHidden = false) :
    h.AsksFor root names n := by
  refine ⟨dir, .dir, here, entry, ?_, fun _ => visible⟩
  rintro i ⟨⟩

theorem asksFor_link {target : Path} (here : h.LeadsTo (root.below names) dir .dir)
    (entry : h.tree.at? (dir ++ [n]) = some (.link target)) : h.AsksFor root names n := by
  refine ⟨dir, _, here, entry, ?_, ?_⟩
  · rintro i ⟨⟩
  · rintro ⟨⟩

/-- What is looked up lies at an entry of a directory, or below it. -/
theorem LooksUp.stands (looksUp : h.LooksUp root names n path) :
    ∃ dir e, h.LeadsTo (root.below names) dir .dir ∧ h.tree.at? (dir ++ [n]) = some e := by
  cases looksUp with
  | entry asks =>
    obtain ⟨dir, e, here, stands, -⟩ := asks.entry
    exact ⟨dir, e, here, stands⟩
  | further goesOn => exact goesOn.entry

/-- What an answer says about the paths that were looked up for it: none of them blocks, or the
fault is that of one that does. -/
def Explains {α : Type} (h : Host) (looked : Path → Prop) : Except FileFault α → Prop
  | .ok _ => ∀ path, looked path → ∀ fault, ¬ h.Blocks path fault
  | .error fault => ∃ path, looked path ∧ h.Blocks path fault

/-- Where the walk goes on behind an entry, the further walk explains the visit of the entry. -/
theorem Explains.visit {α : Type} {answer : Except FileFault α} {found : Position × Kind}
    (goesOn : h.GoesOn root names n) (ok : h.lookup (root.below (names ++ [n])) = .ok found)
    (explains : h.Explains (fun path => ∃ m, h.LooksUp root (names ++ [n]) m path) answer) :
    h.Explains (h.LooksUp root names n) answer := by
  cases answer with
  | ok =>
    rintro path (_ | ⟨_, later⟩)
    · exact fun _ => not_blocks_of_ok ok
    · exact explains path ⟨_, later⟩
  | error fault =>
    obtain ⟨path, ⟨m, later⟩, blocks⟩ := explains
    exact ⟨path, .further goesOn later, blocks⟩

/-- Where the walk does not go on behind an entry, it looks up the entry itself at most. -/
theorem explains_of_stays {α : Type} {a : α} (stays : ∀ q, h.GoesOn root names n →
    ¬ h.LeadsTo (root.below (names ++ [n])) q .dir)
    (free : h.AsksFor root names n → ∀ fault, ¬ h.Blocks (root.below (names ++ [n])) fault) :
    h.Explains (h.LooksUp root names n) (Except.ok a) := by
  rintro path (asks | ⟨goesOn, later⟩)
  · exact free asks
  · obtain ⟨q, -, leads, -⟩ := later.stands
    exact absurd leads (stays q goesOn)

/-- The visit of an entry is explained, provided that the walk is through the directory that is
entered there. -/
theorem visit_explains (wf : h.WellFormed) (inside : h.Inside root fresh dir names) {e : Entry}
    (entry : h.tree.at? (dir ++ [n]) = some e)
    (enters : ∀ q, (e = .dir ∧ q = dir ++ [n]) ∨ (q ∈ fresh ∧ n.isHidden = false) →
      h.Inside root (fresh.erase q) q (names ++ [n]) →
      h.Explains (fun path => ∃ m, h.LooksUp root (names ++ [n]) m path)
        (h.walk root (fresh.erase q) q (names ++ [n]))) :
    h.Explains (h.LooksUp root names n) (h.visit root fresh dir names n e) := by
  have plain : n.IsPlain := wf.tree.plain_of_at? entry n (by simp)
  -- the entry that is asked for is the one that stands here
  have same {dir' : Position} {e' : Entry} (here : h.LeadsTo (root.below names) dir' .dir)
      (stands : h.tree.at? (dir' ++ [n]) = some e') : e' = e := by
    rw [(inside.here.unique here).1, entry] at stands
    exact (Option.some.inj stands).symm
  cases e with
  | file i =>
    have leads : h.LeadsTo (root.below (names ++ [n])) (dir ++ [n]) (.file i) :=
      (leadsTo_concat_iff inside.here plain).mpr (.file plain.ordinary entry)
    refine explains_of_stays (fun _ _ => leads.not_dir) ?_
    rintro ⟨dir', e', here, stands, isNoFile, -⟩
    exact absurd (same here stands) (isNoFile i)
  | dir =>
    have leads : h.LeadsTo (root.below (names ++ [n])) (dir ++ [n]) .dir :=
      (leadsTo_concat_iff inside.here plain).mpr (.dir plain.ordinary entry .here)
    rw [visit]
    cases visible : n.isHidden with
    | true =>
      refine explains_of_stays ?_ ?_
      · intro _ goesOn
        rw [goesOn.visible] at visible
        cases visible
      · rintro ⟨dir', e', here, stands, -, shown⟩
        rw [shown (same here stands)] at visible
        cases visible
    | false =>
      rw [if_neg Bool.false_ne_true]
      cases result : h.lookup (root.below (names ++ [n])) with
      | error cause =>
        refine ⟨_, .entry (asksFor_dir inside.here entry visible), cause, result, ?_, rfl⟩
        rintro rfl
        exact not_leadsTo_of_noSuchFile result leads
      | ok found =>
        have explains := enters _ (Or.inl ⟨rfl, rfl⟩) (inside.enter leads)
        exact explains.visit (inside.goesOn visible entry (by rintro _ ⟨⟩)) result
  | link target =>
    have asks : h.AsksFor root names n := asksFor_link inside.here entry
    have spec := h.lookup_spec (root.below (names ++ [n]))
    rw [visit]
    cases result : h.lookup (root.below (names ++ [n])) with
    | error cause =>
      dsimp only
      split
      · rename_i absent
        subst absent
        exact explains_of_stays (fun _ _ => not_leadsTo_of_noSuchFile result)
          fun _ _ => not_blocks_of_noSuchFile result
      · rename_i other
        exact ⟨_, .entry asks, cause, result, other, rfl⟩
    | ok found =>
      rw [result] at spec
      obtain ⟨q, k⟩ := found
      cases k with
      | file i =>
        exact explains_of_stays (fun _ _ => spec.not_dir) fun _ _ => not_blocks_of_ok result
      | dir =>
        dsimp only
        split
        · rename_i enter
          rw [Bool.and_eq_true, List.contains_iff_mem, Bool.not_eq_true'] at enter
          have explains := enters q (Or.inr enter) (inside.enter spec)
          refine explains.visit (inside.goesOn enter.2 entry ?_) result
          intro _ _ q' leads'
          rw [(LeadsTo.unique spec leads').1]
          exact ((inside.mem_fresh_iff q).mp enter.1).2
        · rename_i passedOver
          rw [Bool.and_eq_true, List.contains_iff_mem, Bool.not_eq_true'] at passedOver
          refine explains_of_stays ?_ fun _ _ => not_blocks_of_ok result
          intro _ goesOn _
          refine passedOver ⟨?_, goesOn.visible⟩
          rw [inside.mem_fresh_iff]
          exact ⟨wf.at?_of_leadsTo spec, goesOn.noReturn dir target q inside.here entry spec⟩

/-- The run: a walk through a directory is explained by the paths that it looks up. -/
theorem walk_explains (wf : h.WellFormed) (root : Path) (fresh : List Position) (dir : Position)
    (names : List Name) (inside : h.Inside root fresh dir names) :
    h.Explains (fun path => ∃ n, h.LooksUp root names n path) (h.walk root fresh dir names) := by
  induction fresh, dir, names using Host.walk.induct (h := h) with
  | case1 fresh dir names entersDir entersLink =>
    have each (n : Name) (e : Entry) (child : (n, e) ∈ h.tree.children dir) :
        h.Explains (h.LooksUp root names n) (h.visit root fresh dir names n e) := by
      refine visit_explains wf inside (wf.tree.mem_children_iff.mp child) ?_
      rintro q (⟨rfl, rfl⟩ | ⟨isFresh, visible⟩) inside'
      · exact entersDir n child inside'
      · exact entersLink n q ⟨isFresh, by rw [visible]; rfl⟩ inside'
    have outcome :=
      mapM_outcome (fun e => h.visit root fresh dir names e.1 e.2) (h.tree.children dir)
    rw [walk_eq]
    generalize ((h.tree.children dir).mapM fun e => h.visit root fresh dir names e.1 e.2) = answer
      at outcome ⊢
    cases answer with
    | error fault =>
      obtain ⟨⟨n, e⟩, child, failed⟩ := outcome
      have explains := each n e child
      rw [failed] at explains
      obtain ⟨path, looksUp, blocks⟩ := explains
      exact ⟨path, ⟨n, looksUp⟩, blocks⟩
    | ok parts =>
      rintro path ⟨n, looksUp⟩
      obtain ⟨dir', e, here, stands⟩ := looksUp.stands
      rw [(inside.here.unique here).1] at stands
      have child := wf.tree.mem_children_iff.mpr stands
      obtain ⟨part, visited⟩ := outcome (n, e) child
      have explains := each n e child
      rw [visited] at explains
      exact explains path looksUp

/-- The header files below a directory can be listed exactly if the walk can pass every entry that
it looks up, links and hidden links included. Otherwise the fault names an entry that the system
refuses for another reason than that there is no such file. -/
theorem headersBelow_ok_iff_passable (wf : h.WellFormed) {path : Path}
    (isDir : h.fileSystem.isDir path = true) :
    ((∃ found, h.fileSystem.headersBelow path = .ok found) ↔
      ∀ n p, h.LooksUp (h.anchor path) [] n p → h.Passable p) ∧
    ∀ fault, h.fileSystem.headersBelow path = .error fault →
      ∃ n p, h.LooksUp (h.anchor path) [] n p ∧ h.Blocks p fault := by
  obtain ⟨q, here⟩ := isDir_iff.mp isDir
  have leads := h.lookup_spec (h.anchor path)
  rw [here] at leads
  have explains := walk_explains wf (h.anchor path) _ q [] (inside_root wf leads)
  rw [headersBelow_eq_of_dir here]
  simp only [passable_iff]
  cases walked : h.walk (h.anchor path) (h.tree.directories.erase q) q [] with
  | ok found =>
    rw [walked] at explains
    constructor
    · exact iff_of_true ⟨_, rfl⟩ fun n p looksUp => explains p ⟨n, looksUp⟩
    · rintro _ ⟨⟩
  | error fault =>
    rw [walked] at explains
    obtain ⟨p, ⟨n, looksUp⟩, blocks⟩ := explains
    constructor
    · refine iff_of_false ?_ fun free => free n p looksUp fault blocks
      rintro ⟨_, ⟨⟩⟩
    · rintro _ ⟨⟩
      exact ⟨n, p, looksUp, blocks⟩

/-- A header file in a directory with some links. -/
def linkHost (links : List (String × String)) : Host where
  tree :=
    { entries := [("w", .dir), ("w/inc", .dir), ("w/inc/a.h", .file 0)].map (fun e =>
          ((Path.ofString e.1).parts, e.2)) ++
        links.map fun l =>
          ((Path.ofString "w/inc").parts ++ (Path.ofString l.1).parts, .link (.ofString l.2))
      contents := [[]] }
  current := (Path.ofString "w").parts
  workingDir := none

/-- Links that lead to no entry, one of them hidden, and a link back to the directory. -/
def looseLinks : List (String × String) :=
  [("gone.h", "lost.h"), (".gone.h", "lost/gone.h"), ("back", ".")]

theorem looseLinks_passable :
    (linkHost looseLinks).WellFormed ∧
      (linkHost looseLinks).fileSystem.isDir (.ofString "inc") = true ∧
      (linkHost looseLinks).fileSystem.headersBelow (.ofString "inc") = .ok [.ofString "inc/a.h"] ∧
      ∀ n p, (linkHost looseLinks).LooksUp ((linkHost looseLinks).anchor (.ofString "inc")) [] n p →
        (linkHost looseLinks).Passable p := by
  have wf : (linkHost looseLinks).WellFormed := by decide
  have isDir : (linkHost looseLinks).fileSystem.isDir (.ofString "inc") = true := by cbv
  have listed : (linkHost looseLinks).fileSystem.headersBelow (.ofString "inc") =
      .ok [.ofString "inc/a.h"] := by cbv
  exact ⟨wf, isDir, listed, (headersBelow_ok_iff_passable wf isDir).1.mp ⟨_, listed⟩⟩

/-- The header files cannot be listed if a link leads to itself, be it hidden or not, if two links
lead to each other, or if a link goes on behind a file. -/
theorem headersBelow_endless_links :
    (linkHost [("self.h", "self.h")]).WellFormed ∧
      (linkHost [("self.h", "self.h")]).fileSystem.isDir (.ofString "inc") = true ∧
      (linkHost [("self.h", "self.h")]).fileSystem.headersBelow (.ofString "inc") =
        .error (.walking (.ofString "inc/self.h") .tooManyLinks) ∧
      (linkHost [(".self", ".self")]).fileSystem.headersBelow (.ofString "inc") =
        .error (.walking (.ofString "inc/.self") .tooManyLinks) ∧
      (linkHost [("x", "y"), ("y", "x")]).fileSystem.headersBelow (.ofString "inc") =
        .error (.walking (.ofString "inc/x") .tooManyLinks) ∧
      (linkHost [("x.h", "a.h/b.h")]).fileSystem.headersBelow (.ofString "inc") =
        .error (.walking (.ofString "inc/x.h") .notADirectory) :=
  ⟨by decide, by cbv, by cbv, by cbv, by cbv, by cbv⟩

end Host

end LibraryHeaders
