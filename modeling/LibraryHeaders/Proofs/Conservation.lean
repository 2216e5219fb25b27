import LibraryHeaders.Resolution
import LibraryHeaders.Proofs.Exclusion
import LibraryHeaders.Proofs.Promotion

/-!
# A resolution loses nothing

Whatever ends a resolution, the sequence it hands back carries over the headers it was given and,
behind them, the extra headers up to the first that is missing. Only the addition of extra headers
changes which headers there are; exclusion and the designation of umbrella headers carry the
sequence over. Which headers the directives add is said apart from the stages that add them.
-/

namespace LibraryHeaders

/-- A computation that ends well has come through its first step. -/
theorem bind_eq_ok {ε α β : Type} {x : Except ε α} {f : α → Except ε β} {b : β} :
    x >>= f = .ok b ↔ ∃ a, x = .ok a ∧ f a = .ok b := by
  constructor
  · intro ok
    cases x with
    | error e => cases ok
    | ok a => exact ⟨a, rfl, ok⟩
  · rintro ⟨a, rfl, ok⟩
    exact ok

namespace Directives

/-- The entries that an entry stands for: a directory for the header files below it, anything else
for itself. A directory that cannot be read stands for none. -/
def standsFor (fs : FileSystem) (entry : String) : List String :=
  if fs.isDir (Path.ofString entry) then
    match fs.headersBelow (Path.ofString entry) with
    | .ok headers => headers.map Path.text
    | .error _ => []
  else [entry]

theorem expandEntry_ok {fs : FileSystem} {entry : String} {list : List String}
    (expanded : expandEntry fs entry = .ok list) : list = standsFor fs entry := by
  rw [expandEntry] at expanded
  rw [standsFor]
  split at expanded
  · rename_i directory
    rw [if_pos directory]
    cases below : fs.headersBelow (Path.ofString entry) with
    | ok headers =>
      rw [below] at expanded
      cases expanded
      rfl
    | error fault =>
      rw [below] at expanded
      cases expanded
  · rename_i file
    rw [if_neg file]
    cases expanded
    rfl

theorem expandEntries_ok {fs : FileSystem} {entries list : List String}
    (expanded : expandEntries fs entries = .ok list) :
    list = entries.flatMap (standsFor fs) := by
  induction entries generalizing list with
  | nil =>
    cases expanded
    rfl
  | cons entry entries ih =>
    rw [expandEntries] at expanded
    obtain ⟨head, first, expanded⟩ := bind_eq_ok.mp expanded
    obtain ⟨rest, second, expanded⟩ := bind_eq_ok.mp expanded
    cases expanded
    rw [List.flatMap_cons, ← ih second, ← expandEntry_ok first]

theorem effective_set (d : Directives) (v w : Visibility) (entries : List String) :
    (d.set v entries).effective w = if w = v then entries else d.effective w := by
  by_cases same : w = v <;> simp [effective, set, put, same]

theorem expandClasses_ok {fs : FileSystem} {d done expanded : Directives} {vs : List Visibility}
    (ok : expandClasses fs d done vs = .ok expanded) (v : Visibility) :
    expanded.effective v =
      if v ∈ vs then (d.effective v).flatMap (standsFor fs) else done.effective v := by
  induction vs generalizing done with
  | nil =>
    cases ok
    rfl
  | cons w vs ih =>
    rw [expandClasses] at ok
    obtain ⟨entries, first, ok⟩ := bind_eq_ok.mp ok
    rw [ih ok, effective_set, expandEntries_ok first]
    by_cases later : v ∈ vs
    · simp [later]
    · by_cases same : v = w
      · subst same
        simp
      · simp [later, same]

/-- Expansion replaces every entry by the entries that it stands for. -/
theorem expand_ok {fs : FileSystem} {d expanded : Directives} (ok : d.expand fs = .ok expanded)
    (v : Visibility) : expanded.effective v = (d.effective v).flatMap (standsFor fs) := by
  rw [expandClasses_ok ok]
  split
  · rfl
  · rename_i absent
    -- a class without a list has no entries, before and after
    rw [classes, List.mem_filter] at absent
    simp only [Visibility.mem_all, true_and, Bool.or_eq_true, Option.isSome_iff_ne_none, not_or,
      ne_eq, not_not] at absent
    simp [effective, empty, absent]

end Directives

namespace Extras

/-- The entries that name files are added one by one, and the first other one ends this. -/
theorem appendEntries_spec (fs : FileSystem) (namer : IncludeNamer) (hs : List Header)
    (entries : List (Visibility × String)) :
    match appendEntries fs namer hs entries with
    | (built, .ok ()) =>
      built = hs ++ entries.map (fun e => header fs namer e.1 e.2) ∧
        ∀ e ∈ entries, fs.isFile (Path.ofString e.2) = true
    | (built, .error problem) =>
      ∃ before v entry after, entries = before ++ (v, entry) :: after ∧
        built = hs ++ before.map (fun e => header fs namer e.1 e.2) ∧
        (∀ e ∈ before, fs.isFile (Path.ofString e.2) = true) ∧
        fs.isFile (Path.ofString entry) = false ∧ problem = .missingFile entry v := by
  induction entries generalizing hs with
  | nil => simp [appendEntries]
  | cons e entries ih =>
    obtain ⟨v, entry⟩ := e
    rw [appendEntries]
    by_cases file : fs.isFile (Path.ofString entry) = true
    · rw [if_pos file]
      have tail := ih (hs ++ [header fs namer v entry])
      generalize appendEntries fs namer (hs ++ [header fs namer v entry]) entries = result at tail ⊢
      obtain ⟨built, problem | done⟩ := result
      · obtain ⟨before, w, missing, after, split, built_eq, files, absent, named⟩ := tail
        refine ⟨(v, entry) :: before, w, missing, after, by rw [split]; rfl, ?_, ?_, absent, named⟩
        · rw [built_eq]
          simp
        · simpa [file] using files
      · obtain ⟨built_eq, files⟩ := tail
        refine ⟨?_, by simpa [file] using files⟩
        rw [built_eq]
        simp
    · rw [if_neg file]
      exact ⟨[], v, entry, entries, rfl, by simp, by simp, by simpa using file, rfl⟩

end Extras

theorem Exclusion.apply_carried (fs : FileSystem) (ds : List Directive) (hs : List Header) :
    Carried hs (apply fs ds hs).1 := by
  cases read : compile fs ⟨[], []⟩ ds with
  | error problem =>
    rw [apply, read]
    exact .refl hs
  | ok c =>
    rw [apply_of_compile read]
    apply Carried.map
    intro h
    rw [flagFile_flagHit]
    refine ⟨rfl, rfl, rfl, rfl, ?_, id⟩
    intro excluded
    simp [excluded]

namespace Context

/-- The headers that the extra directives denote, class by class. -/
def extraHeaders (c : Context) : List Header :=
  Visibility.concrete.flatMap fun v =>
    ((c.extra.effective v).flatMap (Directives.standsFor c.fs)).map (Extras.header c.fs c.namer v)

/-- The sequence that a resolution hands back, however it ends. -/
def handedBack : Except Failure Resolution → List Header
  | .ok r => r.headers
  | .error f => f.headers

variable {c : Context} {base built : List Header} {extra exclude : Directives}

theorem extraHeaders_of_expand (expanded : c.extra.expand c.fs = .ok extra) :
    (Extras.entries extra).map (fun e => Extras.header c.fs c.namer e.1 e.2) = c.extraHeaders := by
  rw [Extras.entries, extraHeaders, List.map_flatMap]
  simp only [List.map_map, Function.comp_def, Directives.expand_ok expanded]

/-- Behind the addition of the extra headers the sequence is only carried over. -/
theorem carried_of_built (expandedExtra : c.extra.expand c.fs = .ok extra)
    (expandedExclude : c.exclude.expand c.fs = .ok exclude)
    (appended : Extras.append c.fs c.namer extra base = (built, .ok ())) :
    Carried built (handedBack (c.resolve base)) := by
  have flags := Exclusion.apply_carried c.fs exclude.list built
  rw [resolve, expandedExtra, expandedExclude]
  simp only [appended]
  generalize Exclusion.apply c.fs exclude.list built = excluded at flags ⊢
  obtain ⟨flagged, problem | warnings⟩ := excluded
  · exact flags
  · have moves := Umbrella.resolveClasses_carried c.framework c.umbrella flagged Visibility.concrete
    rw [← Umbrella.resolve] at moves
    dsimp only
    generalize Umbrella.resolve c.framework c.umbrella flagged = designated at moves ⊢
    obtain ⟨final, problem | _⟩ := designated
    · exact flags.trans moves
    · exact flags.trans moves

/-- A resolution hands back the headers it was given and a first part of the extra headers, all of
them if it succeeds: each as often as before, and with flags raised at most. -/
theorem resolve_loses_nothing (c : Context) (base : List Header) :
    ∃ added, added <+: c.extraHeaders ∧ Carried (base ++ added) (handedBack (c.resolve base)) ∧
      ∀ r, c.resolve base = .ok r → added = c.extraHeaders := by
  cases expandedExtra : c.extra.expand c.fs with
  | error e =>
    refine ⟨[], List.nil_prefix, ?_, ?_⟩
    · rw [resolve, expandedExtra, List.append_nil]
      exact .refl base
    · intro r resolved
      rw [resolve, expandedExtra] at resolved
      cases resolved
  | ok extra =>
    cases expandedExclude : c.exclude.expand c.fs with
    | error e =>
      refine ⟨[], List.nil_prefix, ?_, ?_⟩
      · rw [resolve, expandedExtra, expandedExclude, List.append_nil]
        exact .refl base
      · intro r resolved
        rw [resolve, expandedExtra, expandedExclude] at resolved
        cases resolved
    | ok exclude =>
      have denoted := extraHeaders_of_expand expandedExtra
      have step := Extras.appendEntries_spec c.fs c.namer base (Extras.entries extra)
      rw [← Extras.append] at step
      cases appended : Extras.append c.fs c.namer extra base with
      | mk built outcome =>
        rw [appended] at step
        cases outcome with
        | error problem =>
          obtain ⟨before, v, entry, after, split, built_eq, _⟩ := step
          rw [split, List.map_append] at denoted
          refine ⟨_, denoted ▸ List.prefix_append _ _, ?_, ?_⟩
          · rw [resolve, expandedExtra, expandedExclude]
            simp only [appended, handedBack, built_eq]
            exact .refl _
          · intro r resolved
            rw [resolve, expandedExtra, expandedExclude] at resolved
            simp only [appended] at resolved
            cases resolved
        | ok =>
          refine ⟨c.extraHeaders, List.prefix_rfl, ?_, fun _ _ => rfl⟩
          rw [← denoted, ← step.1]
          exact carried_of_built expandedExtra expandedExclude appended

end Context

end LibraryHeaders
