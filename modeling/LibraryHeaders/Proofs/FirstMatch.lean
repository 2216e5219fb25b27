import LibraryHeaders.Proofs.Cluster

/-!
# Which of several headers is designated

The first header that fits is designated, and first means first in the sequence as the promotions
of the classes before have left it. These promotions exchange headers, so a header in one of the
front places may have been carried behind others that fit as well. `travel` follows every place
through the promotions. The designated header is the one that the promotions carry least far, which
is the first of the input unless they carry that one past another.
-/

namespace LibraryHeaders.Umbrella

/-- The two places that resolving a class exchanges. -/
def exchange (framework : Option String) (v : Visibility) (named : Option String)
    (hs : List Header) : Equiv.Perm Nat :=
  match hs.findIdx? (fits framework v named) with
  | some found => Equiv.swap (slot hs found) found
  | none => Equiv.refl Nat

/-- Where resolving some classes in turn carries the header at each place. -/
def travel (framework : Option String) (named : Visibility → Option String) :
    List Header → List Visibility → Equiv.Perm Nat
  | _, [] => Equiv.refl Nat
  | hs, v :: vs =>
    (exchange framework v (named v) hs).trans
      (travel framework named (resolveClass framework v (named v) hs).1 vs)

/-- The classes that are resolved before a class. -/
def earlier (v : Visibility) : List Visibility := Visibility.concrete.filter (· < v)

/-- A header of the class that satisfies its rule stands at this place. -/
def Candidate (framework : Option String) (named : Visibility → Option String) (v : Visibility)
    (hs : List Header) (i : Nat) : Prop :=
  ∃ h, hs[i]? = some h ∧ h.visibility = v ∧ Satisfies framework named v h.path.chars

/-- The first of the candidates stands at this place. -/
def FirstCandidate (framework : Option String) (named : Visibility → Option String)
    (v : Visibility) (hs : List Header) (i : Nat) : Prop :=
  Candidate framework named v hs i ∧ ∀ j, Candidate framework named v hs j → i ≤ j

variable {framework : Option String} {named : Visibility → Option String}

theorem candidate_iff {v : Visibility} {hs : List Header} {i : Nat} :
    Candidate framework named v hs i ↔
      ∃ h, hs[i]? = some h ∧ fits framework v (named v) h = true := by
  simp only [Candidate, fits_iff]

theorem firstCandidate_iff {v : Visibility} {hs : List Header} {i : Nat} :
    FirstCandidate framework named v hs i ↔
      hs.findIdx? (fits framework v (named v)) = some i := by
  rw [List.findIdx?_eq_some_iff_getElem, FirstCandidate]
  simp only [candidate_iff]
  constructor
  · rintro ⟨⟨h, here, fit⟩, minimal⟩
    obtain ⟨bound, rfl⟩ := List.getElem?_eq_some_iff.mp here
    refine ⟨bound, fit, ?_⟩
    intro j lower fit'
    have := minimal j ⟨_, List.getElem?_eq_getElem (by omega), fit'⟩
    omega
  · rintro ⟨bound, fit, minimal⟩
    refine ⟨⟨_, List.getElem?_eq_getElem bound, fit⟩, ?_⟩
    rintro j ⟨h, here, fit'⟩
    obtain ⟨_, rfl⟩ := List.getElem?_eq_some_iff.mp here
    by_contra lower
    exact minimal j (by omega) fit'

theorem concrete_split {v : Visibility} (hv : v ∈ Visibility.concrete) :
    ∃ later, Visibility.concrete = earlier v ++ v :: later := by
  cases v with
  | pub => exact ⟨[.priv, .proj], rfl⟩
  | priv => exact ⟨[.proj], rfl⟩
  | proj => exact ⟨[], rfl⟩
  | unspecified => exact absurd hv (by decide)

theorem resolveClasses_cons_ok {v : Visibility} {vs : List Visibility}
    {hs hs' final : List Header} {index : Option Nat} {designated : List (Visibility × Nat)}
    (step : resolveClass framework v (named v) hs = (hs', .ok index))
    (resolved : resolveClasses framework named hs (v :: vs) = (final, .ok designated)) :
    ∃ rest, resolveClasses framework named hs' vs = (final, .ok rest) ∧
      designated = (index.map (v, ·)).toList ++ rest := by
  rw [resolveClasses, step] at resolved
  cases tail : resolveClasses framework named hs' vs with
  | mk final' outcome =>
    cases outcome with
    | error e => simp [tail, Except.map] at resolved
    | ok rest =>
      simp only [tail, Except.map, Prod.mk.injEq, Except.ok.injEq] at resolved
      exact ⟨rest, by rw [resolved.1], resolved.2.symm⟩

/-- Classes in turn, cut anywhere. -/
theorem resolveClasses_append_ok {us vs : List Visibility} {hs final : List Header}
    {designated : List (Visibility × Nat)}
    (resolved : resolveClasses framework named hs (us ++ vs) = (final, .ok designated)) :
    ∃ mid before rest, resolveClasses framework named hs us = (mid, .ok before) ∧
      resolveClasses framework named mid vs = (final, .ok rest) ∧ designated = before ++ rest := by
  induction us generalizing hs designated with
  | nil => exact ⟨hs, [], designated, rfl, resolved, rfl⟩
  | cons u us ih =>
    cases step : resolveClass framework u (named u) hs with
    | mk hs' outcome =>
      cases outcome with
      | error e =>
        rw [List.cons_append, resolveClasses, step] at resolved
        cases resolved
      | ok index =>
        obtain ⟨tail, resolvedTail, parts⟩ := resolveClasses_cons_ok step resolved
        obtain ⟨mid, before, rest, resolvedBefore, resolvedRest, split⟩ := ih resolvedTail
        refine ⟨mid, (index.map (u, ·)).toList ++ before, rest, ?_, resolvedRest, ?_⟩
        · rw [resolveClasses, step]
          simp only [resolvedBefore]
          rfl
        · rw [parts, split, List.append_assoc]

theorem travel_found {v : Visibility} {vs : List Visibility} {hs : List Header} {found : Nat}
    (search : hs.findIdx? (fits framework v (named v)) = some found) (i : Nat) :
    travel framework named hs (v :: vs) i =
      travel framework named (promote hs found).1 vs (Equiv.swap (slot hs found) found i) := by
  rw [travel, resolveClass_eq, exchange, search]
  rfl

theorem travel_missing {v : Visibility} {vs : List Visibility} {hs : List Header}
    (search : hs.findIdx? (fits framework v (named v)) = none) (i : Nat) :
    travel framework named hs (v :: vs) i = travel framework named hs vs i := by
  rw [travel, resolveClass_eq, exchange, search]
  rfl

/-- What stands in the cluster stays where it is. -/
theorem getElem?_of_lt_cluster {classes vs : List Visibility} {hs : List Header}
    (cluster : FrontCluster framework named classes hs)
    (ascending : (classes ++ vs).Pairwise (· < ·)) {i : Nat} (inside : i < classes.length) :
    (resolveClasses framework named hs vs).1[i]? = hs[i]? := by
  induction vs generalizing classes hs with
  | nil => rfl
  | cons v vs ih =>
    obtain ⟨later, _, longerAscending, restAscending⟩ := ascending_step ascending
    rcases resolveClass_cases framework v (named v) hs with
      ⟨found, search, step⟩ | ⟨_, step⟩ | ⟨entry, _, _, _, step⟩
    · obtain ⟨place, longer⟩ := cluster.promote later search
      have bound := (List.findIdx?_eq_some_iff_getElem.mp search).1
      have behind := slot_le hs found
      have tail := ih longer longerAscending (by rw [List.length_append]; omega)
      rw [resolveClasses, step]
      dsimp only
      rw [tail, getElem?_promote bound, if_neg (by omega), Option.map_id,
        Equiv.swap_apply_of_ne_of_ne (by omega) (by omega)]
      rfl
    · rw [resolveClasses, step]
      exact ih cluster restAscending inside
    · rw [resolveClasses, step]

/-- Every header is found where `travel` says, raised at most. -/
theorem travel_raises {vs : List Visibility} {hs final : List Header}
    {designated : List (Visibility × Nat)}
    (resolved : resolveClasses framework named hs vs = (final, .ok designated)) (i : Nat) :
    ∃ raise : Header → Header, (∀ h, Header.RaisedTo h (raise h)) ∧
      final[travel framework named hs vs i]? = hs[i]?.map raise := by
  induction vs generalizing hs designated i with
  | nil =>
    cases resolved
    exact ⟨id, Header.RaisedTo.refl, by simp [travel]⟩
  | cons v vs ih =>
    rcases resolveClass_cases framework v (named v) hs with
      ⟨found, search, step⟩ | ⟨search, step⟩ | ⟨entry, _, _, _, step⟩
    · have bound := (List.findIdx?_eq_some_iff_getElem.mp search).1
      obtain ⟨rest, resolved', _⟩ := resolveClasses_cons_ok step resolved
      obtain ⟨first, firstRaises, here⟩ := promote_raises bound i
      obtain ⟨raise, raises, there⟩ := ih resolved' (Equiv.swap (slot hs found) found i)
      refine ⟨raise ∘ first, fun h => (firstRaises h).trans (raises _), ?_⟩
      rw [travel_found search, there, here, Option.map_map]
    · obtain ⟨rest, resolved', _⟩ := resolveClasses_cons_ok step resolved
      obtain ⟨raise, raises, there⟩ := ih resolved' i
      exact ⟨raise, raises, by rw [travel_missing search, there]⟩
    · rw [resolveClasses, step] at resolved
      cases resolved

/-- A header of another class comes through as it was. Behind the places that the designated
headers take it does not move either. -/
theorem getElem?_travel {classes vs : List Visibility} {hs final : List Header}
    {designated : List (Visibility × Nat)} (cluster : FrontCluster framework named classes hs)
    (ascending : (classes ++ vs).Pairwise (· < ·))
    (resolved : resolveClasses framework named hs vs = (final, .ok designated)) {i : Nat}
    {h : Header} (here : hs[i]? = some h) (other : h.visibility ∉ vs) :
    final[travel framework named hs vs i]? = some h ∧
      (classes.length + designated.length ≤ i → travel framework named hs vs i = i) := by
  induction vs generalizing classes hs designated i with
  | nil =>
    cases resolved
    exact ⟨here, fun _ => rfl⟩
  | cons v vs ih =>
    obtain ⟨later, _, longerAscending, restAscending⟩ := ascending_step ascending
    have stillOther : h.visibility ∉ vs := fun inside => other (List.mem_cons_of_mem v inside)
    rcases resolveClass_cases framework v (named v) hs with
      ⟨found, search, step⟩ | ⟨search, step⟩ | ⟨entry, _, _, _, step⟩
    · obtain ⟨place, longer⟩ := cluster.promote later search
      obtain ⟨bound, fit, _⟩ := List.findIdx?_eq_some_iff_getElem.mp search
      obtain ⟨rest, resolved', split⟩ := resolveClasses_cons_ok step resolved
      have elsewhere : i ≠ found := by
        intro same
        subst same
        rw [List.getElem?_eq_getElem bound] at here
        have visibility := (fits_iff.mp fit).1
        rw [Option.some.inj here] at visibility
        exact other (visibility ▸ List.mem_cons_self)
      have notSlot : Equiv.swap (slot hs found) found i ≠ slot hs found := by
        rw [Ne, Equiv.swap_apply_eq_iff, Equiv.swap_apply_left]
        exact elsewhere
      have moved : (promote hs found).1[Equiv.swap (slot hs found) found i]? = some h := by
        rw [getElem?_promote bound, if_neg notSlot, Option.map_id, Equiv.swap_apply_self]
        exact here
      obtain ⟨there, fixed⟩ := ih longer longerAscending resolved' moved stillOther
      rw [travel_found search]
      refine ⟨there, ?_⟩
      intro behind
      rw [split] at behind
      simp only [Option.map_some, Option.toList_some, List.singleton_append,
        List.length_cons] at behind
      have still : Equiv.swap (slot hs found) found i = i :=
        Equiv.swap_apply_of_ne_of_ne (by omega) elsewhere
      rw [still] at fixed ⊢
      exact fixed (by rw [List.length_append, List.length_singleton]; omega)
    · obtain ⟨rest, resolved', split⟩ := resolveClasses_cons_ok step resolved
      rw [travel_missing search, split]
      exact ih cluster restAscending resolved' here stillOther
    · rw [resolveClasses, step] at resolved
      cases resolved

/-- The turn of a designated class: what it finds first in the sequence that the classes before it
have left ends up in its place, and stays there. -/
theorem turn_of_designated {hs final : List Header} {designated : List (Visibility × Nat)}
    (fresh : ∀ h ∈ hs, h.isUmbrella = false)
    (resolved : resolve framework named hs = (final, .ok designated)) {v : Visibility} {k : Nat}
    (turn : (v, k) ∈ designated) :
    v ∈ Visibility.concrete ∧
      ∃ mid before found, resolveClasses framework named hs (earlier v) = (mid, .ok before) ∧
        before.length = k ∧ mid.findIdx? (fits framework v (named v)) = some found ∧
        final[k]? = mid[found]?.map Header.designate := by
  rw [resolve] at resolved
  obtain ⟨places, cluster, members⟩ := cluster_of_resolved fresh (by decide) resolved
  obtain ⟨concrete, available⟩ := (members v).mp (List.mem_map_of_mem turn)
  obtain ⟨later, split⟩ := concrete_split concrete
  have ascending : (earlier v ++ v :: later).Pairwise (· < ·) := by
    rw [← split]
    decide
  rw [split] at resolved
  obtain ⟨mid, before, rest, resolvedBefore, resolvedRest, parts⟩ :=
    resolveClasses_append_ok resolved
  obtain ⟨_, clusterBefore, membersBefore⟩ :=
    cluster_of_resolved fresh (ascending.sublist (List.sublist_append_left _ _)) resolvedBefore
  have carried := resolveClasses_carried framework named hs (earlier v)
  rw [resolvedBefore] at carried
  have stillAvailable := (available_carried carried).mpr available
  have ascendingRest : (before.map Prod.fst ++ v :: later).Pairwise (· < ·) := by
    obtain ⟨_, ascendingLater, across⟩ := List.pairwise_append.mp ascending
    rw [List.pairwise_append]
    refine ⟨clusterBefore.ascending, ascendingLater, ?_⟩
    intro u hu w hw
    exact across u ((membersBefore u).mp hu).1 w hw
  obtain ⟨lower, _, longerAscending, _⟩ := ascending_step ascendingRest
  rcases resolveClass_cases framework v (named v) mid with
    ⟨found, search, step⟩ | ⟨search, _⟩ | ⟨entry, search, _, _, _⟩
  · obtain ⟨place, longer⟩ := clusterBefore.promote lower search
    rw [List.length_map] at place
    have bound := (List.findIdx?_eq_some_iff_getElem.mp search).1
    obtain ⟨tail, resolvedTail, partsRest⟩ := resolveClasses_cons_ok step resolvedRest
    -- the class is designated once only, so its place is behind the classes before it
    have inPlace : (designated.map Prod.fst)[before.length]? = some v := by
      rw [parts, partsRest]
      simp
    have turn_k : (designated.map Prod.fst)[k]? = some v := by
      rw [places] at turn
      exact List.mk_mem_zipIdx_iff_getElem?.mp turn
    have same : before.length = k := cluster.place_unique inPlace turn_k
    refine ⟨concrete, mid, before, found, resolvedBefore, same, search, ?_⟩
    have inside : before.length < (before.map Prod.fst ++ [v]).length := by simp
    have stays := getElem?_of_lt_cluster longer longerAscending inside
    rw [resolvedTail, getElem?_promote bound, if_pos place.symm, ← place,
      Equiv.swap_apply_left] at stays
    rw [← same, ← place]
    exact stays
  · exact absurd stillAvailable (findIdx?_eq_none_iff_not_available.mp search)
  · exact absurd stillAvailable (findIdx?_eq_none_iff_not_available.mp search)

/-- Of the headers of a designated class only the one in its place is an umbrella header. -/
theorem umbrella_iff_turn {hs final : List Header} {designated : List (Visibility × Nat)}
    (fresh : ∀ h ∈ hs, h.isUmbrella = false)
    (resolved : resolve framework named hs = (final, .ok designated)) {v : Visibility} {k : Nat}
    (turn : (v, k) ∈ designated) (j : Nat) (h : Header) (here : final[j]? = some h) :
    h.isUmbrella = true ∧ h.visibility = v ↔ j = k := by
  rw [resolve] at resolved
  obtain ⟨places, cluster, _⟩ := cluster_of_resolved fresh (by decide) resolved
  rw [places] at turn
  have turn_k := List.mk_mem_zipIdx_iff_getElem?.mp turn
  rw [cluster.umbrella_iff here]
  constructor
  · intro turn_j
    exact cluster.place_unique turn_j turn_k
  · rintro rfl
    exact turn_k

/-- A header can be designated after some promotions exactly if it could before. -/
theorem candidate_travel_iff {vs : List Visibility} {hs mid : List Header}
    {designated : List (Visibility × Nat)}
    (resolved : resolveClasses framework named hs vs = (mid, .ok designated)) {v : Visibility}
    {i : Nat} :
    Candidate framework named v mid (travel framework named hs vs i) ↔
      Candidate framework named v hs i := by
  obtain ⟨raise, raises, there⟩ := travel_raises resolved i
  unfold Candidate
  rw [there]
  constructor
  · rintro ⟨h', here', visibility, satisfied⟩
    obtain ⟨h, here, rfl⟩ := Option.map_eq_some_iff.mp here'
    rw [(raises h).visibility] at visibility
    rw [(raises h).path] at satisfied
    exact ⟨h, here, visibility, satisfied⟩
  · rintro ⟨h, here, visibility, satisfied⟩
    refine ⟨raise h, by rw [here]; rfl, ?_, ?_⟩
    · rw [(raises h).visibility]
      exact visibility
    · rw [(raises h).path]
      exact satisfied

theorem Candidate.exists_first {v : Visibility} {hs : List Header} {i : Nat}
    (candidate : Candidate framework named v hs i) :
    ∃ first, FirstCandidate framework named v hs first := by
  obtain ⟨h, here, fit⟩ := candidate_iff.mp candidate
  cases search : hs.findIdx? (fits framework v (named v)) with
  | some first => exact ⟨first, firstCandidate_iff.mpr search⟩
  | none =>
    rw [List.findIdx?_eq_none_iff.mp search h (List.mem_of_getElem? here)] at fit
    cases fit

theorem not_mem_earlier (v : Visibility) : v ∉ earlier v := by
  intro inside
  have lower := (List.mem_filter.mp inside).2
  exact Nat.lt_irrefl _ (of_decide_eq_true lower)

/-- The sequence that a class searches, once the classes before it are resolved. -/
def searched (framework : Option String) (named : Visibility → Option String) (v : Visibility)
    (hs : List Header) : List Header :=
  (resolveClasses framework named hs (earlier v)).1

/-- Where in that sequence the header at each place of the input stands. -/
def searchedAt (framework : Option String) (named : Visibility → Option String) (v : Visibility)
    (hs : List Header) : Equiv.Perm Nat :=
  travel framework named hs (earlier v)

/-- The header designated for a class is the first of its candidates in the sequence that the
classes before it have left. The candidates come to that sequence as they were. Only those that
stood before the place of the designated header have moved, so it is the first candidate of the
input exactly if no other has been carried ahead of that one. -/
theorem designated_is_first_after_promotions {hs final : List Header}
    {designated : List (Visibility × Nat)} (fresh : ∀ h ∈ hs, h.isUmbrella = false)
    (resolved : resolve framework named hs = (final, .ok designated)) {v : Visibility} {k : Nat}
    (turn : (v, k) ∈ designated) :
    (∀ j h, final[j]? = some h → (h.isUmbrella = true ∧ h.visibility = v ↔ j = k)) ∧
      ∃ first chosen, FirstCandidate framework named v hs first ∧
        Candidate framework named v hs chosen ∧
        final[k]? = hs[chosen]?.map Header.designate ∧
        FirstCandidate framework named v (searched framework named v hs)
          (searchedAt framework named v hs chosen) ∧
        (∀ i, Candidate framework named v hs i →
          (searched framework named v hs)[searchedAt framework named v hs i]? = hs[i]? ∧
            (k ≤ i → searchedAt framework named v hs i = i)) ∧
        (chosen = first ↔ ∀ i, Candidate framework named v hs i →
          searchedAt framework named v hs first ≤ searchedAt framework named v hs i) ∧
        (k ≤ first → chosen = first) := by
  refine ⟨umbrella_iff_turn fresh resolved turn, ?_⟩
  obtain ⟨concrete, mid, before, found, resolvedBefore, length_k, search, stays⟩ :=
    turn_of_designated fresh resolved turn
  have foundFirst := firstCandidate_iff.mpr search
  rw [searched, searchedAt, resolvedBefore]
  dsimp only
  have candidates : ∀ i, Candidate framework named v hs i →
      mid[travel framework named hs (earlier v) i]? = hs[i]? ∧
        (k ≤ i → travel framework named hs (earlier v) i = i) := by
    rintro i ⟨h, here, visibility, _⟩
    have ascending : ([] ++ earlier v).Pairwise (· < ·) := by
      cases v <;> decide
    obtain ⟨there, fixed⟩ := getElem?_travel (.of_fresh framework named fresh) ascending resolvedBefore here
      (visibility ▸ not_mem_earlier v)
    refine ⟨there.trans here.symm, ?_⟩
    intro behind
    exact fixed (by rw [length_k, List.length_nil, Nat.zero_add]; exact behind)
  have least : ∀ i, Candidate framework named v hs i →
      found ≤ travel framework named hs (earlier v) i := by
    intro i candidate
    exact foundFirst.2 _ ((candidate_travel_iff resolvedBefore).mpr candidate)
  -- the header found is followed back to where it stood in the input
  obtain ⟨chosen, rfl⟩ := (travel framework named hs (earlier v)).surjective found
  have chosenCandidate := (candidate_travel_iff resolvedBefore).mp foundFirst.1
  obtain ⟨first, firstCandidate⟩ := chosenCandidate.exists_first
  have chosen_iff : chosen = first ↔ ∀ i, Candidate framework named v hs i →
      travel framework named hs (earlier v) first ≤ travel framework named hs (earlier v) i := by
    constructor
    · rintro rfl
      exact least
    · intro ahead
      apply (travel framework named hs (earlier v)).injective
      exact Nat.le_antisymm (least first firstCandidate.1) (ahead chosen chosenCandidate)
  refine ⟨first, chosen, firstCandidate, chosenCandidate, ?_, foundFirst, candidates, chosen_iff, ?_⟩
  · rw [stays, (candidates chosen chosenCandidate).1]
  · intro behind
    rw [chosen_iff]
    intro i candidate
    have later := firstCandidate.2 i candidate
    rw [(candidates first firstCandidate.1).2 behind, (candidates i candidate).2 (by omega)]
    exact later

theorem fooHeaders_designated_after_promotions :
    (∀ h ∈ fooHeaders, h.isUmbrella = false) ∧
      ∃ first chosen, FirstCandidate (some "Foo") (fun _ => none) .priv fooHeaders first ∧
        FirstCandidate (some "Foo") (fun _ => none) .priv
          (searched (some "Foo") (fun _ => none) .priv fooHeaders)
          (searchedAt (some "Foo") (fun _ => none) .priv fooHeaders chosen) ∧
        (resolve (some "Foo") (fun _ => none) fooHeaders).1[1]? =
          fooHeaders[chosen]?.map Header.designate := by
  have fresh : ∀ h ∈ fooHeaders, h.isUmbrella = false := by decide
  have resolved : resolve (some "Foo") (fun _ => none) fooHeaders =
      ((resolve (some "Foo") (fun _ => none) fooHeaders).1, .ok [(.pub, 0), (.priv, 1)]) := rfl
  have turn : (Visibility.priv, 1) ∈ [(Visibility.pub, 0), (Visibility.priv, 1)] := by decide
  obtain ⟨_, first, chosen, isFirst, _, ends, inSearched, _⟩ :=
    designated_is_first_after_promotions fresh resolved turn
  exact ⟨fresh, first, chosen, isFirst, inSearched, ends⟩

/-- The public header goes to the front and takes the first private one to its own old place, so the
second private one is designated. -/
theorem first_of_input_passed_over :
    ¬ ∀ (framework : Option String) (named : Visibility → Option String) (hs final : List Header)
      (designated : List (Visibility × Nat)), (∀ h ∈ hs, h.isUmbrella = false) →
      resolve framework named hs = (final, .ok designated) →
      ∀ (v : Visibility) (k first : Nat), (v, k) ∈ designated →
        FirstCandidate framework named v hs first →
        final[k]? = hs[first]?.map Header.designate := by
  intro always
  have resolved : resolve (some "Foo") (fun _ => none) fooHeaders =
      ((resolve (some "Foo") (fun _ => none) fooHeaders).1, .ok [(.pub, 0), (.priv, 1)]) := rfl
  have first : FirstCandidate (some "Foo") (fun _ => none) .priv fooHeaders 0 :=
    firstCandidate_iff.mpr rfl
  have designated := always _ _ _ _ _ (by decide) resolved .priv 1 0 (by decide) first
  revert designated
  decide

end LibraryHeaders.Umbrella
