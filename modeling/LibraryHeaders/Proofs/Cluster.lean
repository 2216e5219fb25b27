import LibraryHeaders.Proofs.Occurrences
import LibraryHeaders.Proofs.Promotion
import LibraryHeaders.Proofs.Utf8

/-!
# Umbrella headers at the front

The rule of every class is stated once more, as the shape of a path and apart from the search for
it, together with the length of the names up to which it is small enough to be looked for. From a
sequence without umbrella headers, resolving the classes in turn leaves the designated headers at
the front in the order of their classes, flags no other header, and designates exactly the classes
for which some header satisfies the rule. The invariant is `FrontCluster`; it also holds where a
named umbrella header is missing and the resolution ends early.
-/

namespace LibraryHeaders.Umbrella

/-- No umbrella header is named for the class; an empty name stands for none. -/
def Unnamed (named : Visibility → Option String) (v : Visibility) : Prop :=
  named v = none ∨ named v = some ""

/-- The most bytes of a name that paths may have to contain. With more of them the rule is too
large. -/
def longestEntry : Nat := 327673

/-- The most bytes of a framework's name for its public rule. -/
def longestPublic : Nat := 327669

/-- The most bytes of a framework's name for its private rule. -/
def longestPrivate : Nat := 327659

/-- The bytes of a name. -/
def bytes (name : String) : Nat := (Utf8.encode name.toList).length

/-- The paths that satisfy the rule of a class: those that contain the name that is given, or else
those that end as convention has it. Project headers have no convention, and a rule that is too
large is satisfied by no path. -/
inductive Satisfies (framework : Option String) (named : Visibility → Option String) :
    Visibility → List Char → Prop where
  | given {v : Visibility} {entry : String} {path : List Char} (name : named v = some entry)
      (nonempty : entry ≠ "") (small : bytes entry ≤ longestEntry)
      (within : entry.toList <:+: path) : Satisfies framework named v path
  | pub {library : String} {path : List Char} (unnamed : Unnamed named .pub)
      (known : framework = some library) (nonempty : library ≠ "")
      (small : bytes library ≤ longestPublic)
      (ending : ("/" ++ library ++ ".h").toList <:+ path) : Satisfies framework named .pub path
  | priv {library : String} {path : List Char} (unnamed : Unnamed named .priv)
      (known : framework = some library) (nonempty : library ≠ "")
      (small : bytes library ≤ longestPrivate)
      (ending : ("/" ++ library ++ "Private.h").toList <:+ path) :
      Satisfies framework named .priv path
  | privUnderscored {library : String} {path : List Char} (unnamed : Unnamed named .priv)
      (known : framework = some library) (nonempty : library ≠ "")
      (small : bytes library ≤ longestPrivate)
      (ending : ("/" ++ library ++ "_Private.h").toList <:+ path) :
      Satisfies framework named .priv path

/-- Some header of the class satisfies its rule. -/
def Available (framework : Option String) (named : Visibility → Option String) (hs : List Header)
    (v : Visibility) : Prop :=
  ∃ h ∈ hs, h.visibility = v ∧ Satisfies framework named v h.path.chars

/-- The umbrella headers of some classes, class after class, and behind them none. -/
structure FrontCluster (framework : Option String) (named : Visibility → Option String)
    (classes : List Visibility) (hs : List Header) : Prop where
  ascending : classes.Pairwise (· < ·)
  front : ∀ (i : Nat) (v : Visibility), classes[i]? = some v → ∃ h, hs[i]? = some h ∧
    h.visibility = v ∧ h.isUmbrella = true ∧ Satisfies framework named v h.path.chars
  rest : ∀ (i : Nat) (h : Header), classes.length ≤ i → hs[i]? = some h → h.isUmbrella = false

variable {framework : Option String} {named : Visibility → Option String}

theorem unnamed_iff {v : Visibility} :
    Unnamed named v ↔ (named v).filter (· ≠ "") = none := by
  unfold Unnamed
  cases named v with
  | none => simp
  | some s => by_cases empty : s = "" <;> simp [empty]

theorem filter_nonempty_eq_some_iff {o : Option String} {s : String} :
    o.filter (· ≠ "") = some s ↔ o = some s ∧ s ≠ "" := by
  rw [Option.filter_eq_some_iff]
  simp

theorem wanted?_of_given {v : Visibility} {entry : String} (name : named v = some entry)
    (nonempty : entry ≠ "") :
    wanted? framework v (named v) = some (.contains entry.toList) := by
  rw [wanted?, filter_nonempty_eq_some_iff.mpr ⟨name, nonempty⟩]

theorem wanted?_of_known {v : Visibility} {library : String} (unnamed : Unnamed named v)
    (known : framework = some library) (nonempty : library ≠ "") :
    wanted? framework v (named v) = conventional? library v := by
  rw [wanted?, unnamed_iff.mp unnamed, filter_nonempty_eq_some_iff.mpr ⟨known, nonempty⟩]
  rfl

/-! ## Which rules are small enough -/

theorem compiled?_eq_some_iff {rule rule' : Rule} :
    rule.compiled? = some rule' ↔ rule.size ≤ Automaton.maxSize ∧ rule = rule' := by
  rw [Rule.compiled?]
  by_cases large : Automaton.maxSize < rule.size
  · simp [large]
  · simp [large, Nat.not_lt.mp large]

theorem textStates_toList (name : String) : Automaton.textStates name.toList = bytes name := rfl

theorem bytes_append (s t : String) : bytes (s ++ t) = bytes s + bytes t := by
  rw [bytes, String.toList_append]
  exact Automaton.textStates_append s.toList t.toList

theorem small_contains_iff {entry : String} :
    (Rule.contains entry.toList).size ≤ Automaton.maxSize ↔ bytes entry ≤ longestEntry := by
  simp only [Rule.size, textStates_toList, Automaton.size, Automaton.maxSize, longestEntry]
  omega

theorem small_endsWith_iff {library : String} :
    (Rule.endsWith ("/" ++ library ++ ".h").toList).size ≤ Automaton.maxSize ↔
      bytes library ≤ longestPublic := by
  have slash : bytes "/" = 1 := rfl
  have extension : bytes ".h" = 2 := rfl
  simp only [Rule.size, textStates_toList, bytes_append, slash, extension, Automaton.size,
    Automaton.maxSize, longestPublic]
  omega

theorem small_endsWithPair_iff {library : String} :
    (Rule.endsWithPair ("/" ++ library).toList "Private.h".toList).size ≤ Automaton.maxSize ↔
      bytes library ≤ longestPrivate := by
  have slash : bytes "/" = 1 := rfl
  have back : bytes "Private.h" = 9 := rfl
  simp only [Rule.size, textStates_toList, bytes_append, slash, back, Automaton.size,
    Automaton.maxSize, longestPrivate]
  omega

/-! ## The rules as shapes of a path -/

theorem satisfies_iff {v : Visibility} {path : List Char} :
    Satisfies framework named v path ↔
      ∃ rule, (wanted? framework v (named v)).bind Rule.compiled? = some rule ∧
        rule.accepts path = true := by
  simp only [Option.bind_eq_some_iff, compiled?_eq_some_iff]
  constructor
  · intro satisfied
    cases satisfied with
    | given name nonempty small within =>
      exact ⟨_, ⟨_, wanted?_of_given name nonempty, small_contains_iff.mpr small, rfl⟩,
        Text.occursIn_iff.mpr within⟩
    | pub unnamed known nonempty small ending =>
      exact ⟨_, ⟨_, wanted?_of_known unnamed known nonempty, small_endsWith_iff.mpr small, rfl⟩,
        Text.endsWith_iff.mpr ending⟩
    | priv unnamed known nonempty small ending =>
      refine ⟨_, ⟨_, wanted?_of_known unnamed known nonempty, small_endsWithPair_iff.mpr small,
        rfl⟩, ?_⟩
      rw [String.toList_append] at ending
      rw [Rule.accepts, Text.endsWith_iff.mpr ending, Bool.true_or]
    | @privUnderscored library _ unnamed known nonempty small ending =>
      refine ⟨_, ⟨_, wanted?_of_known unnamed known nonempty, small_endsWithPair_iff.mpr small,
        rfl⟩, ?_⟩
      rw [String.toList_append] at ending
      have underscored : Text.endsWith path (("/" ++ library).toList ++ '_' :: "Private.h".toList) :=
        Text.endsWith_iff.mpr ending
      rw [Rule.accepts, underscored, Bool.or_true]
  · rintro ⟨_, ⟨rule, wanted, small, rfl⟩, accepted⟩
    cases given : (named v).filter (· ≠ "") with
    | some entry =>
      obtain ⟨name, nonempty⟩ := filter_nonempty_eq_some_iff.mp given
      rw [wanted?_of_given name nonempty] at wanted
      cases wanted
      exact .given name nonempty (small_contains_iff.mp small) (Text.occursIn_iff.mp accepted)
    | none =>
      have unnamed : Unnamed named v := unnamed_iff.mpr given
      cases library? : framework.filter (· ≠ "") with
      | none =>
        rw [wanted?, given, library?] at wanted
        cases wanted
      | some library =>
        obtain ⟨known, nonempty⟩ := filter_nonempty_eq_some_iff.mp library?
        rw [wanted?_of_known unnamed known nonempty] at wanted
        cases v with
        | pub =>
          cases wanted
          exact .pub unnamed known nonempty (small_endsWith_iff.mp small)
            (Text.endsWith_iff.mp accepted)
        | priv =>
          cases wanted
          have few := small_endsWithPair_iff.mp small
          rw [Rule.accepts, Bool.or_eq_true, Text.endsWith_iff, Text.endsWith_iff] at accepted
          rcases accepted with ending | ending
          · refine .priv unnamed known nonempty few ?_
            rw [String.toList_append]
            exact ending
          · refine .privUnderscored unnamed known nonempty few ?_
            rw [String.toList_append]
            exact ending
        | proj => cases wanted
        | unspecified => cases wanted

/-- What a name asks of a path. -/
theorem satisfies_given_iff {v : Visibility} {entry : String} {path : List Char}
    (name : named v = some entry) (nonempty : entry ≠ "") :
    Satisfies framework named v path ↔
      bytes entry ≤ longestEntry ∧ entry.toList <:+: path := by
  rw [satisfies_iff, wanted?_of_given name nonempty]
  simp [compiled?_eq_some_iff, small_contains_iff, Rule.accepts, Text.occursIn_iff]

/-- The search for a class looks for the headers that satisfy its rule. -/
theorem fits_iff {v : Visibility} {h : Header} :
    fits framework v (named v) h = true ↔
      h.visibility = v ∧ Satisfies framework named v h.path.chars := by
  rw [satisfies_iff, fits, Option.any_eq_true]
  simp only [qualifies, Bool.and_eq_true, beq_iff_eq]
  constructor
  · rintro ⟨rule, wanted, visibility, accepted⟩
    exact ⟨visibility, rule, wanted, accepted⟩
  · rintro ⟨visibility, rule, wanted, accepted⟩
    exact ⟨rule, wanted, visibility, accepted⟩

theorem findIdx?_eq_none_iff_not_available {v : Visibility} {hs : List Header} :
    hs.findIdx? (fits framework v (named v)) = none ↔ ¬ Available framework named hs v := by
  simp only [List.findIdx?_eq_none_iff, Available, ← fits_iff, not_exists, not_and,
    Bool.not_eq_true]

theorem available_of_findIdx? {v : Visibility} {hs : List Header} {found : Nat}
    (search : hs.findIdx? (fits framework v (named v)) = some found) :
    Available framework named hs v := by
  by_contra missing
  rw [findIdx?_eq_none_iff_not_available.mpr missing] at search
  cases search

/-- Moving headers and raising flags makes no class available. -/
theorem available_carried {v : Visibility} {before after : List Header}
    (carried : Carried before after) :
    Available framework named after v ↔ Available framework named before v := by
  apply carried.exists_iff
  intro h h' raised
  rw [raised.visibility, raised.path]

/-! ## The cluster -/

namespace FrontCluster

variable {classes : List Visibility} {hs : List Header}

theorem of_fresh (framework : Option String) (named : Visibility → Option String)
    (fresh : ∀ h ∈ hs, h.isUmbrella = false) : FrontCluster framework named [] hs where
  ascending := .nil
  front := by simp
  rest := fun _ h _ here => fresh h (List.mem_of_getElem? here)

theorem nodup (cluster : FrontCluster framework named classes hs) : classes.Nodup := by
  refine cluster.ascending.imp ?_
  rintro u _ lower rfl
  exact Nat.lt_irrefl _ lower

theorem place_unique (cluster : FrontCluster framework named classes hs) {v : Visibility}
    {i j : Nat} (class_i : classes[i]? = some v) (class_j : classes[j]? = some v) : i = j := by
  have inside := (List.getElem?_eq_some_iff.mp class_i).1
  exact (List.getElem?_inj inside cluster.nodup).mp (class_i.trans class_j.symm)

/-- The umbrella headers of a class stand where the cluster says. -/
theorem umbrella_iff (cluster : FrontCluster framework named classes hs) {i : Nat} {h : Header}
    (here : hs[i]? = some h) {v : Visibility} :
    h.isUmbrella = true ∧ h.visibility = v ↔ classes[i]? = some v := by
  constructor
  · rintro ⟨umbrella, rfl⟩
    have inside : i < classes.length := by
      by_contra behind
      rw [cluster.rest i h (by omega) here] at umbrella
      cases umbrella
    have class_i := List.getElem?_eq_getElem inside
    obtain ⟨h', here', visibility, _⟩ := cluster.front i _ class_i
    rw [class_i, ← visibility, Option.some.inj (here.symm.trans here')]
  · intro class_i
    obtain ⟨h', here', visibility, umbrella, _⟩ := cluster.front i v class_i
    cases here.symm.trans here'
    exact ⟨umbrella, visibility⟩

/-- A header of a class without umbrella header stands behind the cluster, and the slot for it is
the one right behind the cluster. -/
theorem slot_eq (cluster : FrontCluster framework named classes hs) {found : Nat} {h : Header}
    (here : hs[found]? = some h) (outside : h.visibility ∉ classes) :
    slot hs found = classes.length ∧ classes.length ≤ found := by
  have behind : classes.length ≤ found := by
    by_contra inside
    obtain ⟨h', here', visibility, _⟩ := cluster.front found _ (List.getElem?_eq_getElem (by omega))
    have same := Option.some.inj (here.symm.trans here')
    exact outside (same ▸ visibility ▸ List.getElem_mem _)
  refine ⟨?_, behind⟩
  have bound := (List.getElem?_eq_some_iff.mp here).1
  -- a slot inside the cluster would hold an umbrella header; one further back would leave an
  -- umbrella header right behind the cluster
  by_contra elsewhere
  by_cases before : slot hs found < classes.length
  · obtain ⟨h', here', _, umbrella, _⟩ := cluster.front _ _ (List.getElem?_eq_getElem before)
    have free := not_isUmbrella_at_slot (by omega) here'
    rw [umbrella] at free
    cases free
  · have lower : classes.length < hs.length := by omega
    have beforeSlot : classes.length < slot hs found := by omega
    have umbrella := isUmbrella_of_lt_slot beforeSlot (List.getElem?_eq_getElem lower)
    rw [cluster.rest _ _ (Nat.le_refl _) (List.getElem?_eq_getElem lower)] at umbrella
    cases umbrella

/-- The step: a promotion puts one class more at the end of the cluster. -/
theorem promote {v : Visibility} (cluster : FrontCluster framework named classes hs)
    (later : ∀ w ∈ classes, w < v) {found : Nat}
    (search : hs.findIdx? (fits framework v (named v)) = some found) :
    slot hs found = classes.length ∧
      FrontCluster framework named (classes ++ [v]) (promote hs found).1 := by
  obtain ⟨bound, fit, _⟩ := List.findIdx?_eq_some_iff_getElem.mp search
  obtain ⟨visibility, satisfied⟩ := fits_iff.mp fit
  have outside : hs[found].visibility ∉ classes := by
    rw [visibility]
    intro inside
    exact Nat.lt_irrefl _ (later v inside)
  obtain ⟨place, behind⟩ := cluster.slot_eq (List.getElem?_eq_getElem bound) outside
  refine ⟨place, ?_, ?_, ?_⟩
  · rw [List.pairwise_append]
    exact ⟨cluster.ascending, List.pairwise_singleton _ _, by simpa using later⟩
  · intro i w class_i
    rw [getElem?_promote bound, place]
    by_cases last : i = classes.length
    · subst last
      rw [List.getElem?_concat_length] at class_i
      cases class_i
      refine ⟨hs[found].designate, ?_, visibility, rfl, satisfied⟩
      rw [Equiv.swap_apply_left, List.getElem?_eq_getElem bound, if_pos rfl]
      rfl
    · have inside : i < classes.length := by
        have := (List.getElem?_eq_some_iff.mp class_i).1
        simp only [List.length_append, List.length_singleton] at this
        omega
      rw [List.getElem?_append_left inside] at class_i
      rw [Equiv.swap_apply_of_ne_of_ne last (by omega), if_neg last, Option.map_id]
      exact cluster.front i w class_i
  · intro i h outsideCluster here
    simp only [List.length_append, List.length_singleton] at outsideCluster
    rw [getElem?_promote bound, place, if_neg (by omega), Option.map_id] at here
    by_cases swapped : i = found
    · rw [swapped, Equiv.swap_apply_right] at here
      exact cluster.rest _ h (Nat.le_refl _) here
    · rw [Equiv.swap_apply_of_ne_of_ne (by omega) swapped] at here
      exact cluster.rest i h (by omega) here

end FrontCluster

/-! ## Classes in turn -/

/-- One class more in the cluster leaves one class less to be resolved. -/
theorem ascending_step {classes vs : List Visibility} {v : Visibility}
    (ascending : (classes ++ v :: vs).Pairwise (· < ·)) :
    (∀ w ∈ classes, w < v) ∧ (∀ w ∈ vs, v < w) ∧ ((classes ++ [v]) ++ vs).Pairwise (· < ·) ∧
      (classes ++ vs).Pairwise (· < ·) := by
  have parts := List.pairwise_append.mp ascending
  refine ⟨fun w hw => parts.2.2 w hw v List.mem_cons_self, (List.pairwise_cons.mp parts.2.1).1,
    by simpa using ascending, ?_⟩
  exact ascending.sublist ((List.sublist_cons_self v vs).append_left classes)

/-- Of some classes, those with a property: a class that has it comes in front of those behind. -/
theorem mem_cons_iff_of_holds {vs new : List Visibility} {v : Visibility} {P : Visibility → Prop}
    (holds : P v) (members : ∀ w, w ∈ new ↔ w ∈ vs ∧ P w) (w : Visibility) :
    w ∈ v :: new ↔ w ∈ v :: vs ∧ P w := by
  rw [List.mem_cons, List.mem_cons, members]
  constructor
  · rintro (rfl | ⟨hw, p⟩)
    · exact ⟨Or.inl rfl, holds⟩
    · exact ⟨Or.inr hw, p⟩
  · rintro ⟨rfl | hw, p⟩
    · exact Or.inl rfl
    · exact Or.inr ⟨hw, p⟩

/-- Of some classes, those with a property: a class that lacks it is left out. -/
theorem mem_iff_of_fails {vs new : List Visibility} {v : Visibility} {P : Visibility → Prop}
    (fails : ¬ P v) (members : ∀ w, w ∈ new ↔ w ∈ vs ∧ P w) (w : Visibility) :
    w ∈ new ↔ w ∈ v :: vs ∧ P w := by
  rw [members, List.mem_cons]
  constructor
  · rintro ⟨hw, p⟩
    exact ⟨Or.inr hw, p⟩
  · rintro ⟨rfl | hw, p⟩
    · exact absurd p fails
    · exact ⟨hw, p⟩

/-- The run: every class that is resolved in turn extends the cluster, up to the first problem. -/
theorem resolveClasses_clusters {classes vs : List Visibility} {hs : List Header}
    (cluster : FrontCluster framework named classes hs)
    (ascending : (classes ++ vs).Pairwise (· < ·)) :
    match resolveClasses framework named hs vs with
    | (final, .ok designated) =>
      designated = (designated.map Prod.fst).zipIdx classes.length ∧
        FrontCluster framework named (classes ++ designated.map Prod.fst) final ∧
        ∀ v, v ∈ designated.map Prod.fst ↔ v ∈ vs ∧ Available framework named hs v
    | (final, .error problem) =>
      ∃ v ∈ vs, ∃ entry new, problem = .noSuchUmbrella entry v ∧ named v = some entry ∧
        entry ≠ "" ∧ ¬ Available framework named hs v ∧
        FrontCluster framework named (classes ++ new) final ∧
        ∀ w, w ∈ new ↔ w ∈ vs ∧ w < v ∧ Available framework named hs w := by
  induction vs generalizing classes hs with
  | nil => simpa [resolveClasses] using cluster
  | cons v vs ih =>
    obtain ⟨later, before, longerAscending, restAscending⟩ := ascending_step ascending
    rcases resolveClass_cases framework v (named v) hs with
      ⟨found, search, step⟩ | ⟨search, step⟩ | ⟨entry, search, name, nonempty, step⟩
    · obtain ⟨place, longer⟩ := cluster.promote later search
      have kept : ∀ w, Available framework named (promote hs found).1 w ↔
          Available framework named hs w := fun w => available_carried (promote_carried hs found)
      have available := available_of_findIdx? search
      have tail := ih longer longerAscending
      rw [resolveClasses, step]
      dsimp only
      generalize resolveClasses framework named (promote hs found).1 vs = result at tail ⊢
      obtain ⟨final, problem | designated⟩ := result
      · simp only [kept] at tail
        obtain ⟨u, hu, entry, new, named_u, name, nonempty, missing, cluster', members⟩ := tail
        exact ⟨u, List.mem_cons_of_mem v hu, entry, v :: new, named_u, name, nonempty, missing,
          by simpa using cluster', mem_cons_iff_of_holds ⟨before u hu, available⟩ members⟩
      · simp only [kept] at tail
        obtain ⟨places, cluster', members⟩ := tail
        refine ⟨?_, by simpa using cluster', mem_cons_iff_of_holds available members⟩
        rw [place]
        simpa using places
    · have missing := findIdx?_eq_none_iff_not_available.mp search
      have tail := ih cluster restAscending
      rw [resolveClasses, step]
      dsimp only
      generalize resolveClasses framework named hs vs = result at tail ⊢
      obtain ⟨final, problem | designated⟩ := result
      · obtain ⟨u, hu, entry, new, named_u, name, nonempty, absent, cluster', members⟩ := tail
        exact ⟨u, List.mem_cons_of_mem v hu, entry, new, named_u, name, nonempty, absent,
          cluster', mem_iff_of_fails (fun p => missing p.2) members⟩
      · obtain ⟨places, cluster', members⟩ := tail
        exact ⟨places, cluster', mem_iff_of_fails missing members⟩
    · rw [resolveClasses, step]
      refine ⟨v, List.mem_cons_self, entry, [], rfl, name, nonempty,
        findIdx?_eq_none_iff_not_available.mp search, by simpa using cluster, ?_⟩
      intro w
      simp only [List.not_mem_nil, false_iff, List.mem_cons]
      rintro ⟨rfl | hw, lower, _⟩
      · exact Nat.lt_irrefl _ lower
      · exact Nat.lt_asymm lower (before w hw)

/-- The run from a sequence without umbrella headers, where it succeeds. -/
theorem cluster_of_resolved {hs final : List Header} {vs : List Visibility}
    {designated : List (Visibility × Nat)} (fresh : ∀ h ∈ hs, h.isUmbrella = false)
    (ascending : vs.Pairwise (· < ·))
    (resolved : resolveClasses framework named hs vs = (final, .ok designated)) :
    designated = (designated.map Prod.fst).zipIdx ∧
      FrontCluster framework named (designated.map Prod.fst) final ∧
      ∀ v, v ∈ designated.map Prod.fst ↔ v ∈ vs ∧ Available framework named hs v := by
  have run := resolveClasses_clusters (.of_fresh framework named fresh) ascending
  rw [resolved] at run
  exact run

/-- Where no class has a header that satisfies its rule, and none is named, nothing is designated. -/
theorem resolveClasses_of_unavailable {hs : List Header} {vs : List Visibility}
    (unnamed : ∀ v ∈ vs, Unnamed named v) (missing : ∀ v ∈ vs, ¬ Available framework named hs v) :
    resolveClasses framework named hs vs = (hs, .ok []) := by
  induction vs with
  | nil => rfl
  | cons v vs ih =>
    have step : resolveClass framework v (named v) hs = (hs, .ok none) := by
      rw [resolveClass_eq, findIdx?_eq_none_iff_not_available.mpr (missing v List.mem_cons_self),
        unnamed_iff.mp (unnamed v List.mem_cons_self)]
    have later := ih (fun u hu => unnamed u (List.mem_cons_of_mem v hu))
      (fun u hu => missing u (List.mem_cons_of_mem v hu))
    rw [resolveClasses, step]
    simp only [later]
    rfl

/-- From a sequence without umbrella headers the designated headers come to stand at the front,
one for each class that has a header satisfying its rule. The only problem is a name that is too
long, or that no header of its class contains; the classes before it are at the front then. -/
theorem resolve_clusters_at_front (framework : Option String)
    (named : Visibility → Option String) (hs : List Header)
    (fresh : ∀ h ∈ hs, h.isUmbrella = false) :
    match resolve framework named hs with
    | (final, .ok designated) =>
      designated = (designated.map Prod.fst).zipIdx ∧
        FrontCluster framework named (designated.map Prod.fst) final ∧
        ∀ v, v ∈ designated.map Prod.fst ↔
          v ∈ Visibility.concrete ∧ Available framework named hs v
    | (final, .error problem) =>
      ∃ v ∈ Visibility.concrete, ∃ entry flagged, problem = .noSuchUmbrella entry v ∧
        named v = some entry ∧ entry ≠ "" ∧
        (longestEntry < bytes entry ∨
          ∀ h ∈ hs, h.visibility = v → ¬ entry.toList <:+: h.path.chars) ∧
        FrontCluster framework named flagged final ∧
        ∀ w, w ∈ flagged ↔ w ∈ Visibility.concrete ∧ w < v ∧ Available framework named hs w := by
  have ascending : ([] ++ Visibility.concrete).Pairwise (· < ·) := by decide
  have run := resolveClasses_clusters (.of_fresh framework named fresh) ascending
  rw [resolve]
  generalize resolveClasses framework named hs Visibility.concrete = result at run ⊢
  obtain ⟨final, problem | designated⟩ := result
  · obtain ⟨v, hv, entry, flagged, problem_v, name, nonempty, missing, cluster, members⟩ := run
    refine ⟨v, hv, entry, flagged, problem_v, name, nonempty, ?_, cluster, members⟩
    rw [← Nat.not_le, or_iff_not_imp_left, Decidable.not_not]
    intro small h hh visibility within
    exact missing ⟨h, hh, visibility, .given name nonempty small within⟩
  · exact run

/-- Two private headers that convention has in mind, and behind them the public one. -/
def fooHeaders : List Header :=
  [.listed .priv (Path.ofString "/A/Foo_Private.h"),
    .listed .priv (Path.ofString "/B/Foo_Private.h"), .listed .pub (Path.ofString "/Foo.h")]

theorem fooHeaders_cluster_at_front :
    (∀ h ∈ fooHeaders, h.isUmbrella = false) ∧
      FrontCluster (some "Foo") (fun _ => none) [.pub, .priv]
        (resolve (some "Foo") (fun _ => none) fooHeaders).1 := by
  have fresh : ∀ h ∈ fooHeaders, h.isUmbrella = false := by decide
  have clusters := resolve_clusters_at_front (some "Foo") (fun _ => none) fooHeaders fresh
  exact ⟨fresh, clusters.2.1⟩

/-- A public header as convention expects it for the framework. -/
def expected (library : String) : List Header :=
  [.listed .pub (Path.ofString ("/" ++ library ++ ".h"))]

/-- With too long a name the framework has no umbrella headers. -/
theorem resolve_expected_of_large {library : String} (large : longestPublic < bytes library) :
    resolve (some library) (fun _ => none) (expected library) = (expected library, .ok []) := by
  refine resolveClasses_of_unavailable (fun _ _ => .inl rfl) fun v _ => ?_
  rintro ⟨h, mem, visibility, satisfied⟩
  obtain rfl := List.mem_singleton.mp mem
  cases satisfied with
  | given name => cases name
  | pub _ known _ small =>
    cases known
    exact absurd small (Nat.not_le.mpr large)
  | priv => cases visibility
  | privUnderscored => cases visibility

theorem bytes_replicate (n : Nat) : bytes (String.ofList (List.replicate n 'a')) = n := by
  have one : 'a'.utf8Size = 1 := rfl
  simp [bytes, Utf8.encode, List.flatMap_replicate, one]

def longName : String := String.ofList (List.replicate 330000 'a')

/-- The public header of a framework with a long name ends as convention has it, but it is not
designated. -/
theorem large_rule_passes_over :
    ¬ ∀ (framework : Option String) (named : Visibility → Option String) (hs final : List Header)
      (designated : List (Visibility × Nat)), (∀ h ∈ hs, h.isUmbrella = false) →
      resolve framework named hs = (final, .ok designated) →
      ∀ library, framework = some library → library ≠ "" → named .pub = none →
        (Visibility.pub ∈ designated.map Prod.fst ↔ ∃ h ∈ hs, h.visibility = .pub ∧
          ("/" ++ library ++ ".h").toList <:+ h.path.chars) := by
  intro always
  have length : bytes longName = 330000 := bytes_replicate 330000
  have large : longestPublic < bytes longName := by
    rw [length]
    decide
  have nonempty : longName ≠ "" := by
    intro empty
    rw [empty] at length
    exact absurd length (by decide)
  have fresh : ∀ h ∈ expected longName, h.isUmbrella = false := List.forall_mem_singleton.mpr rfl
  have ends : ("/" ++ longName ++ ".h").toList <:+
      (Path.ofString ("/" ++ longName ++ ".h")).chars := by
    rw [Path.chars_ofString]
  have iff := always _ _ _ _ _ fresh (resolve_expected_of_large large) longName rfl nonempty rfl
  exact absurd (iff.mpr ⟨_, List.mem_singleton_self _, rfl, ends⟩) List.not_mem_nil

end LibraryHeaders.Umbrella
