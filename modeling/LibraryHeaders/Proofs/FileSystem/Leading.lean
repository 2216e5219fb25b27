import LibraryHeaders.FileSystem.Host
import LibraryHeaders.Proofs.PathNames

/-!
# Where paths lead

What a path leads to in a tree, as the rules of path resolution apart from the limits that a system
sets: the empty name and `.` stay in a directory, `..` goes up, and a link stands for its target
wherever it is. `Leads` starts from a position and is deterministic. Names that lead nowhere stray:
they come to a name that no entry has, or go on behind a file. Links that lead in a circle do
neither. Following names by the program agrees with both, except that the system refuses too many
links and names that are too long. A path that is joined from two leads where the second leads from
where the first does.
-/

namespace LibraryHeaders

/-- The system does not look where the path leads. -/
def FileFault.IsLimit (fault : FileFault) : Prop :=
  fault = .nulInName ∨ fault = .nameTooLong ∨ fault = .tooManyLinks

instance (fault : FileFault) : Decidable fault.IsLimit := inferInstanceAs (Decidable (_ ∨ _))

namespace Tree

/-- Where the resolution of a path starts, seen from a directory. -/
def origin (dir : Position) (p : Path) : Position := if p.isAbsolute then [] else dir

/-- Names lead from a directory to what stands at a position. -/
inductive Leads (t : Tree) : Position → List Name → Position → Kind → Prop where
  | here {p : Position} : Leads t p [] p .dir
  | stay {p q : Position} {n : Name} {rest : List Name} {k : Kind} (idle : n = [] ∨ n = [Path.dot])
      (onward : Leads t p rest q k) : Leads t p (n :: rest) q k
  | up {p q : Position} {rest : List Name} {k : Kind} (onward : Leads t p.dropLast rest q k) :
      Leads t p ([Path.dot, Path.dot] :: rest) q k
  | dir {p q : Position} {n : Name} {rest : List Name} {k : Kind} (ordinary : n.IsOrdinary)
      (entry : t.at? (p ++ [n]) = some .dir) (onward : Leads t (p ++ [n]) rest q k) :
      Leads t p (n :: rest) q k
  /-- Behind a file nothing may follow, not even an empty name. -/
  | file {p : Position} {n : Name} {i : Nat} (ordinary : n.IsOrdinary)
      (entry : t.at? (p ++ [n]) = some (.file i)) : Leads t p [n] (p ++ [n]) (.file i)
  | link {p q : Position} {n : Name} {target : Path} {rest : List Name} {k : Kind}
      (ordinary : n.IsOrdinary) (entry : t.at? (p ++ [n]) = some (.link target))
      (onward : Leads t (origin p target) (target.parts ++ rest) q k) : Leads t p (n :: rest) q k

/-- A path leads from a directory to what stands at a position. The empty path leads nowhere. -/
def LeadsTo (t : Tree) (current : Position) (path : Path) (q : Position) (k : Kind) : Prop :=
  path.bytes ≠ [] ∧ t.Leads (origin current path) path.parts q k

/-- Names lead from a directory nowhere, and for this reason. -/
inductive Strays (t : Tree) : Position → List Name → FileFault → Prop where
  | stay {p : Position} {n : Name} {rest : List Name} {fault : FileFault}
      (idle : n = [] ∨ n = [Path.dot]) (onward : Strays t p rest fault) :
      Strays t p (n :: rest) fault
  | up {p : Position} {rest : List Name} {fault : FileFault}
      (onward : Strays t p.dropLast rest fault) :
      Strays t p ([Path.dot, Path.dot] :: rest) fault
  | dir {p : Position} {n : Name} {rest : List Name} {fault : FileFault} (ordinary : n.IsOrdinary)
      (entry : t.at? (p ++ [n]) = some .dir) (onward : Strays t (p ++ [n]) rest fault) :
      Strays t p (n :: rest) fault
  | link {p : Position} {n : Name} {target : Path} {rest : List Name} {fault : FileFault}
      (ordinary : n.IsOrdinary) (entry : t.at? (p ++ [n]) = some (.link target))
      (onward : Strays t (origin p target) (target.parts ++ rest) fault) :
      Strays t p (n :: rest) fault
  | missing {p : Position} {n : Name} {rest : List Name} (ordinary : n.IsOrdinary)
      (absent : t.at? (p ++ [n]) = none) : Strays t p (n :: rest) .noSuchFile
  | behindFile {p : Position} {n m : Name} {rest : List Name} {i : Nat} (ordinary : n.IsOrdinary)
      (entry : t.at? (p ++ [n]) = some (.file i)) : Strays t p (n :: m :: rest) .notADirectory

/-- A path leads from a directory nowhere, and for this reason. -/
def StraysTo (t : Tree) (current : Position) (path : Path) (fault : FileFault) : Prop :=
  if path.bytes = [] then fault = .noSuchFile
  else t.Strays (origin current path) path.parts fault

variable {t : Tree} {p q d : Position} {n : Name} {rest xs ys : List Name} {k : Kind}

theorem leads_nil_iff : t.Leads p [] q k ↔ q = p ∧ k = .dir := by
  constructor
  · intro leads
    cases leads
    exact ⟨rfl, rfl⟩
  · rintro ⟨rfl, rfl⟩
    exact .here

theorem leads_stay_iff (idle : n = [] ∨ n = [Path.dot]) :
    t.Leads p (n :: rest) q k ↔ t.Leads p rest q k := by
  refine ⟨?_, .stay idle⟩
  intro leads
  cases leads with
  | stay _ onward => exact onward
  | up => rcases idle with idle | idle <;> cases idle
  | dir ordinary | file ordinary | link ordinary =>
    exact absurd idle (not_or.mpr ⟨ordinary.1, ordinary.2.1⟩)

theorem leads_up_iff :
    t.Leads p ([Path.dot, Path.dot] :: rest) q k ↔ t.Leads p.dropLast rest q k := by
  refine ⟨?_, .up⟩
  intro leads
  cases leads with
  | stay idle => rcases idle with idle | idle <;> cases idle
  | up onward => exact onward
  | dir ordinary | file ordinary | link ordinary => exact absurd rfl ordinary.2.2

/-- An ordinary name leads to what its entry leads to. -/
theorem leads_entry_iff (ordinary : n.IsOrdinary) :
    t.Leads p (n :: rest) q k ↔
      match t.at? (p ++ [n]) with
      | none => False
      | some .dir => t.Leads (p ++ [n]) rest q k
      | some (.file i) => rest = [] ∧ q = p ++ [n] ∧ k = .file i
      | some (.link target) => t.Leads (origin p target) (target.parts ++ rest) q k := by
  constructor
  · intro leads
    cases leads with
    | stay idle => exact absurd idle (not_or.mpr ⟨ordinary.1, ordinary.2.1⟩)
    | up => exact absurd rfl ordinary.2.2
    | dir _ entry onward =>
      rw [entry]
      exact onward
    | file _ entry =>
      rw [entry]
      exact ⟨rfl, rfl, rfl⟩
    | link _ entry onward =>
      rw [entry]
      exact onward
  · cases entry : t.at? (p ++ [n]) with
    | none => exact False.elim
    | some e =>
      cases e with
      | dir => exact .dir ordinary entry
      | file i =>
        rintro ⟨rfl, rfl, rfl⟩
        exact .file ordinary entry
      | link target => exact .link ordinary entry

/-- Names of every kind: those that stay, the one that goes up, and ordinary ones. -/
theorem name_cases (n : Name) : (n = [] ∨ n = [Path.dot]) ∨ n = [Path.dot, Path.dot] ∨
    n.IsOrdinary := by
  by_cases idle : n = [] ∨ n = [Path.dot]
  · exact Or.inl idle
  · by_cases up : n = [Path.dot, Path.dot]
    · exact Or.inr (Or.inl up)
    · exact Or.inr (Or.inr ⟨fun h => idle (Or.inl h), fun h => idle (Or.inr h), up⟩)

theorem Leads.unique {q' : Position} {k' : Kind} (leads : t.Leads p xs q k)
    (leads' : t.Leads p xs q' k') : q' = q ∧ k' = k := by
  induction leads with
  | here => exact leads_nil_iff.mp leads'
  | stay idle _ ih => exact ih ((leads_stay_iff idle).mp leads')
  | up _ ih => exact ih (leads_up_iff.mp leads')
  | dir ordinary entry _ ih =>
    rw [leads_entry_iff ordinary, entry] at leads'
    exact ih leads'
  | file ordinary entry =>
    rw [leads_entry_iff ordinary, entry] at leads'
    exact leads'.2
  | link ordinary entry _ ih =>
    rw [leads_entry_iff ordinary, entry] at leads'
    exact ih leads'

/-- Further names lead on from a directory. -/
theorem Leads.append (first : t.Leads p xs d .dir) (second : t.Leads d ys q k) :
    t.Leads p (xs ++ ys) q k := by
  generalize arrived : Kind.dir = k' at first
  induction first with
  | here => exact second
  | stay idle _ ih => exact .stay idle (ih second arrived)
  | up _ ih => exact .up (ih second arrived)
  | dir ordinary entry _ ih => exact .dir ordinary entry (ih second arrived)
  | file => cases arrived
  | link ordinary entry _ ih =>
    have onward := ih second arrived
    rw [List.append_assoc] at onward
    exact .link ordinary entry onward

/-- What names lead to is reached through a directory wherever they are cut. -/
theorem leads_append_iff (more : ys ≠ []) :
    t.Leads p (xs ++ ys) q k ↔ ∃ d, t.Leads p xs d .dir ∧ t.Leads d ys q k := by
  constructor
  · generalize all : xs ++ ys = zs
    intro leads
    induction leads generalizing xs with
    | here => exact absurd (List.append_eq_nil_iff.mp all).2 more
    | stay idle onward ih =>
      cases xs with
      | nil =>
        subst all
        exact ⟨_, .here, .stay idle onward⟩
      | cons x xs =>
        cases all
        obtain ⟨d, first, second⟩ := ih rfl
        exact ⟨d, .stay idle first, second⟩
    | up onward ih =>
      cases xs with
      | nil =>
        subst all
        exact ⟨_, .here, .up onward⟩
      | cons x xs =>
        cases all
        obtain ⟨d, first, second⟩ := ih rfl
        exact ⟨d, .up first, second⟩
    | dir ordinary entry onward ih =>
      cases xs with
      | nil =>
        subst all
        exact ⟨_, .here, .dir ordinary entry onward⟩
      | cons x xs =>
        cases all
        obtain ⟨d, first, second⟩ := ih rfl
        exact ⟨d, .dir ordinary entry first, second⟩
    | file ordinary entry =>
      cases xs with
      | nil =>
        subst all
        exact ⟨_, .here, .file ordinary entry⟩
      | cons x xs =>
        rw [List.cons_append, List.cons_eq_cons, List.append_eq_nil_iff] at all
        exact absurd all.2.2 more
    | link ordinary entry onward ih =>
      cases xs with
      | nil =>
        subst all
        exact ⟨_, .here, .link ordinary entry onward⟩
      | cons x xs =>
        cases all
        obtain ⟨d, first, second⟩ := ih (List.append_assoc _ _ _)
        exact ⟨d, .link ordinary entry first, second⟩
  · rintro ⟨d, first, second⟩
    exact first.append second

/-! ## Names that stray -/

theorem strays_stay_iff {fault : FileFault} (idle : n = [] ∨ n = [Path.dot]) :
    t.Strays p (n :: rest) fault ↔ t.Strays p rest fault := by
  refine ⟨?_, .stay idle⟩
  intro strays
  cases strays with
  | stay _ onward => exact onward
  | up => rcases idle with idle | idle <;> cases idle
  | dir ordinary | link ordinary | missing ordinary | behindFile ordinary =>
    exact absurd idle (not_or.mpr ⟨ordinary.1, ordinary.2.1⟩)

theorem strays_up_iff {fault : FileFault} :
    t.Strays p ([Path.dot, Path.dot] :: rest) fault ↔ t.Strays p.dropLast rest fault := by
  refine ⟨?_, .up⟩
  intro strays
  cases strays with
  | stay idle => rcases idle with idle | idle <;> cases idle
  | up onward => exact onward
  | dir ordinary | link ordinary | missing ordinary | behindFile ordinary =>
    exact absurd rfl ordinary.2.2

theorem strays_entry_iff {fault : FileFault} (ordinary : n.IsOrdinary) :
    t.Strays p (n :: rest) fault ↔
      match t.at? (p ++ [n]) with
      | none => fault = .noSuchFile
      | some .dir => t.Strays (p ++ [n]) rest fault
      | some (.file _) => rest ≠ [] ∧ fault = .notADirectory
      | some (.link target) => t.Strays (origin p target) (target.parts ++ rest) fault := by
  constructor
  · intro strays
    cases strays with
    | stay idle => exact absurd idle (not_or.mpr ⟨ordinary.1, ordinary.2.1⟩)
    | up => exact absurd rfl ordinary.2.2
    | dir _ entry onward | link _ entry onward =>
      rw [entry]
      exact onward
    | missing _ absent => rw [absent]
    | behindFile _ entry =>
      rw [entry]
      exact ⟨List.cons_ne_nil _ _, rfl⟩
  · cases entry : t.at? (p ++ [n]) with
    | none =>
      rintro rfl
      exact .missing ordinary entry
    | some e =>
      cases e with
      | dir => exact .dir ordinary entry
      | file i =>
        rintro ⟨more, rfl⟩
        cases rest with
        | nil => exact absurd rfl more
        | cons m rest => exact .behindFile ordinary entry
      | link target => exact .link ordinary entry

theorem Strays.not_leads {fault : FileFault} (strays : t.Strays p xs fault) :
    ¬ t.Leads p xs q k := by
  induction strays with
  | stay idle _ ih => rwa [leads_stay_iff idle]
  | up _ ih => rwa [leads_up_iff]
  | dir ordinary entry _ ih | link ordinary entry _ ih => rwa [leads_entry_iff ordinary, entry]
  | missing ordinary absent =>
    rw [leads_entry_iff ordinary, absent]
    exact id
  | behindFile ordinary entry =>
    rw [leads_entry_iff ordinary, entry]
    exact fun leads => List.cons_ne_nil _ _ leads.1

theorem Strays.unique {fault fault' : FileFault} (strays : t.Strays p xs fault)
    (strays' : t.Strays p xs fault') : fault' = fault := by
  induction strays with
  | stay idle _ ih => exact ih ((strays_stay_iff idle).mp strays')
  | up _ ih => exact ih (strays_up_iff.mp strays')
  | dir ordinary entry _ ih | link ordinary entry _ ih =>
    rw [strays_entry_iff ordinary, entry] at strays'
    exact ih strays'
  | missing ordinary absent =>
    rwa [strays_entry_iff ordinary, absent] at strays'
  | behindFile ordinary entry =>
    rw [strays_entry_iff ordinary, entry] at strays'
    exact strays'.2

theorem StraysTo.not_leadsTo {current : Position} {path : Path} {fault : FileFault}
    (strays : t.StraysTo current path fault) : ¬ t.LeadsTo current path q k := by
  rintro ⟨nonempty, leads⟩
  rw [StraysTo, if_neg nonempty] at strays
  exact strays.not_leads leads

theorem StraysTo.unique {current : Position} {path : Path} {fault fault' : FileFault}
    (strays : t.StraysTo current path fault) (strays' : t.StraysTo current path fault') :
    fault' = fault := by
  rw [StraysTo] at strays strays'
  split at strays
  · rename_i empty
    rw [if_pos empty] at strays'
    rw [strays, strays']
  · rename_i nonempty
    rw [if_neg nonempty] at strays'
    exact strays.unique strays'

/-! ## Following names -/

/-- From one place the names lead, or stray, as other names do from another place. -/
structure Onward (t : Tree) (p : Position) (names : List Name) (p' : Position)
    (names' : List Name) : Prop where
  leads : ∀ q k, t.Leads p' names' q k → t.Leads p names q k
  strays : ∀ fault, t.Strays p' names' fault → t.Strays p names fault

/-- What a walk along names tells about them by where it stops. -/
def Stop.Tells (t : Tree) (p : Position) (names : List Name) : Stop → Prop
  | .arrived q k => t.Leads p names q k
  | .refused fault => fault.IsLimit ∨ t.Strays p names fault
  | .met dir target rest => t.Onward p names (origin dir target) (target.parts ++ rest)

theorem Stop.Tells.onward {stop : Stop} {p' : Position} {names names' : List Name}
    (onward : t.Onward p names p' names') (tells : stop.Tells t p' names') :
    stop.Tells t p names := by
  cases stop with
  | arrived q k => exact onward.leads q k tells
  | refused fault => exact tells.imp_right (onward.strays fault)
  | met dir target rest =>
    exact ⟨fun q k leads => onward.leads q k (tells.leads q k leads),
      fun fault strays => onward.strays fault (tells.strays fault strays)⟩

/-- A walk along names comes to what they lead to, or to a link that is then to be followed, or it
is refused because they stray or because of a limit. -/
theorem advance_tells (t : Tree) (p : Position) (names : List Name) :
    (t.advance p .dir names).Tells t p names := by
  induction names generalizing p with
  | nil => exact .here
  | cons n rest ih =>
    rw [advance]
    rcases name_cases n with idle | rfl | ordinary
    · rw [if_pos idle]
      exact (ih p).onward ⟨fun _ _ => .stay idle, fun _ => .stay idle⟩
    · rw [if_neg (by decide), if_pos rfl]
      exact (ih p.dropLast).onward ⟨fun _ _ => .up, fun _ => .up⟩
    · rw [if_neg (not_or.mpr ⟨ordinary.1, ordinary.2.1⟩), if_neg ordinary.2.2]
      by_cases tooLong : longestName < n.length
      · rw [if_pos tooLong]
        exact Or.inl (Or.inr (Or.inl rfl))
      · rw [if_neg tooLong]
        cases entry : t.at? (p ++ [n]) with
        | none => exact Or.inr (.missing ordinary entry)
        | some e =>
          cases e with
          | dir =>
            exact (ih (p ++ [n])).onward
              ⟨fun _ _ => .dir ordinary entry, fun _ => .dir ordinary entry⟩
          | file i =>
            cases rest with
            | nil => exact .file ordinary entry
            | cons m rest => exact Or.inr (.behindFile ordinary entry)
          | link target => exact ⟨fun _ _ => .link ordinary entry, fun _ => .link ordinary entry⟩

/-- Following names finds what they lead to, or it is refused because they stray or because of a
limit. -/
theorem follow_spec (t : Tree) (links : Nat) (p : Position) (names : List Name) :
    match t.follow links p names with
    | .ok (q, k) => t.Leads p names q k
    | .error fault => fault.IsLimit ∨ t.Strays p names fault := by
  induction links generalizing p names with
  | zero =>
    have step := advance_tells t p names
    rw [follow]
    generalize t.advance p .dir names = stop at step ⊢
    cases stop with
    | arrived => exact step
    | refused => exact step
    | met => exact Or.inl (Or.inr (Or.inr rfl))
  | succ links ih =>
    have step := advance_tells t p names
    rw [follow]
    generalize t.advance p .dir names = stop at step ⊢
    cases stop with
    | arrived => exact step
    | refused => exact step
    | met dir target rest =>
      have followed := ih (origin dir target) (target.parts ++ rest)
      rw [origin] at followed
      dsimp only
      generalize t.follow links (if target.isAbsolute then [] else dir) (target.parts ++ rest) =
        result at followed ⊢
      cases result with
      | ok arrived => exact step.leads _ _ followed
      | error fault => exact followed.imp_right (step.strays fault)

/-- The resolution of a path finds what it leads to, or the path is refused because it strays or
because of a limit. -/
theorem resolve_spec (t : Tree) (current : Position) (path : Path) :
    match t.resolve current path with
    | .ok (q, k) => t.LeadsTo current path q k
    | .error fault => fault.IsLimit ∨ t.StraysTo current path fault := by
  rw [resolve]
  by_cases nul : path.bytes.contains 0 = true
  · rw [if_pos nul]
    exact Or.inl (Or.inl rfl)
  rw [if_neg nul]
  by_cases empty : path.bytes = []
  · rw [if_pos empty]
    refine Or.inr ?_
    rw [StraysTo, if_pos empty]
  rw [if_neg empty]
  by_cases tooLong : longestPath < path.bytes.length
  · rw [if_pos tooLong]
    exact Or.inl (Or.inr (Or.inl rfl))
  rw [if_neg tooLong]
  have followed := t.follow_spec mostLinks (origin current path) path.parts
  rw [origin] at followed
  generalize t.follow mostLinks (if path.isAbsolute then [] else current) path.parts = result
    at followed ⊢
  cases result with
  | ok arrived => exact ⟨empty, followed⟩
  | error fault =>
    refine followed.imp_right fun strays => ?_
    rwa [StraysTo, if_neg empty]

theorem LeadsTo.unique {current q' : Position} {path : Path} {k' : Kind}
    (leads : t.LeadsTo current path q k) (leads' : t.LeadsTo current path q' k') :
    q' = q ∧ k' = k :=
  leads.2.unique leads'.2

/-- What is joined to a directory leads where it leads from there. -/
theorem leads_join_iff {s : Position} {dir path : Path} (nonempty : dir.bytes ≠ [])
    (relative : path.isAbsolute = false) :
    t.Leads s (dir.join path).parts q k ↔
      ∃ d, t.Leads s dir.parts d .dir ∧ t.Leads d path.parts q k := by
  have more : path.parts ≠ [] := Text.split_ne_nil _ _
  rcases Path.parts_join nonempty relative with ⟨front, cut, joined⟩ | joined
  · -- the empty name at the end of the directory leads nowhere else
    have same (d : Position) : t.Leads s dir.parts d .dir ↔ t.Leads s front d .dir := by
      rw [cut, leads_append_iff (List.cons_ne_nil _ _)]
      simp only [leads_stay_iff (Or.inl rfl), leads_nil_iff, and_true]
      constructor
      · rintro ⟨d', leads, rfl⟩
        exact leads
      · intro leads
        exact ⟨d, leads, rfl⟩
    rw [joined, leads_append_iff more]
    simp only [same]
  · rw [joined, leads_append_iff more]

theorem origin_join {current : Position} {dir path : Path} (nonempty : dir.bytes ≠ [])
    (relative : path.isAbsolute = false) : origin current (dir.join path) = origin current dir := by
  rw [origin, origin, Path.isAbsolute_join nonempty relative]

theorem leadsTo_join_iff {current : Position} {dir path : Path} (nonempty : dir.bytes ≠ [])
    (relative : path.isAbsolute = false) :
    t.LeadsTo current (dir.join path) q k ↔
      ∃ d, t.LeadsTo current dir d .dir ∧ t.Leads d path.parts q k := by
  simp only [LeadsTo, origin_join nonempty relative, leads_join_iff nonempty relative, ne_eq,
    Path.join_ne_nil nonempty relative, nonempty, not_false_eq_true, true_and]

end Tree

end LibraryHeaders
