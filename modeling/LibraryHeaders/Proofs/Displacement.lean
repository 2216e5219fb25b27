import LibraryHeaders.Proofs.FirstMatch

/-!
# Which headers make way

Bringing the umbrella headers to the front moves few others: a header behind the front places stays
unless it is designated, and a header in one of them that is not designated goes to a place from
which a designated one has come. One class exchanges two places; what a run of classes does to the
places is `MakesWay`, which is put together from the last class to the first.
-/

namespace LibraryHeaders.Umbrella

variable {framework : Option String} {named : Visibility → Option String}

/-- The places from `front` up to `back` are filled anew. What stood before them stays, what stands
behind them stays unless it is brought in, and what leaves them goes where one of those stood. -/
structure MakesWay (front back : Nat) (carry : Equiv.Perm Nat) : Prop where
  before : ∀ i < front, carry i = i
  behind : ∀ i, back ≤ i → back ≤ carry i → carry i = i
  leaving : ∀ i < back, back ≤ carry i → carry (carry i) < back

namespace MakesWay

theorem refl (front : Nat) : MakesWay front front (Equiv.refl Nat) where
  before := fun _ _ => rfl
  behind := fun _ _ _ => rfl
  leaving := fun _ inside outside => absurd outside (Nat.not_le.mpr inside)

/-- The step: the first of the places is filled from the place where a header is found. -/
theorem exchange {front back found : Nat} {carry : Equiv.Perm Nat}
    (later : MakesWay (front + 1) back carry) (room : front < back) (lower : front ≤ found) :
    MakesWay front back ((Equiv.swap front found).trans carry) := by
  have filled : carry front = front := later.before front (Nat.lt_succ_self front)
  have fromFound : carry (Equiv.swap front found found) = front := by
    simp only [Equiv.swap_apply_right, filled]
  have elsewhere : ∀ i, i ≠ front → i ≠ found → carry (Equiv.swap front found i) = carry i := by
    intro i notFront notFound
    simp only [Equiv.swap_apply_of_ne_of_ne notFront notFound]
  refine ⟨?_, ?_, ?_⟩ <;> simp only [Equiv.trans_apply]
  · intro i inside
    have still := elsewhere i (by omega) (by omega)
    exact still.trans (later.before i (by omega))
  · intro i far stillFar
    by_cases same : i = found
    · subst same
      omega
    · have still := elsewhere i (by omega) same
      simp only [still] at stillFar ⊢
      exact later.behind i far stillFar
  · intro i inside leaves
    by_cases further : Equiv.swap front found i < back
    · have returns := later.leaving _ further leaves
      by_cases same : carry (Equiv.swap front found i) = found
      · simp only [same, fromFound]
        exact room
      · have still := elsewhere _ (by omega) same
        omega
    · -- the header that made way for the found one stays where that one stood
      have stays := later.behind _ (Nat.not_lt.mp further) leaves
      have there : Equiv.swap front found i = found := by
        simp only [Equiv.swap_apply_def] at further ⊢
        split_ifs at further ⊢ <;> omega
      simp only [there] at stays ⊢
      simp only [stays, fromFound]
      exact room

end MakesWay

/-- The run: resolving some classes in turn fills one place behind the cluster for each designated
header, and flags what is brought there and nothing else. -/
theorem travel_makesWay {classes vs : List Visibility} {hs final : List Header}
    {designated : List (Visibility × Nat)} (cluster : FrontCluster framework named classes hs)
    (ascending : (classes ++ vs).Pairwise (· < ·))
    (resolved : resolveClasses framework named hs vs = (final, .ok designated)) :
    MakesWay classes.length (classes.length + designated.length) (travel framework named hs vs) ∧
      ∀ i, final[travel framework named hs vs i]? = hs[i]?.map
        (if classes.length ≤ travel framework named hs vs i ∧
          travel framework named hs vs i < classes.length + designated.length
        then Header.designate else id) := by
  induction vs generalizing classes hs designated with
  | nil =>
    cases resolved
    refine ⟨.refl _, ?_⟩
    intro i
    have nowhere : ¬ (classes.length ≤ i ∧ i < classes.length) := by omega
    simp [travel, nowhere]
  | cons v vs ih =>
    obtain ⟨later, _, longerAscending, restAscending⟩ := ascending_step ascending
    rcases resolveClass_cases framework v (named v) hs with
      ⟨found, search, step⟩ | ⟨search, step⟩ | ⟨entry, _, _, _, step⟩
    · obtain ⟨place, longer⟩ := cluster.promote later search
      have bound := (List.findIdx?_eq_some_iff_getElem.mp search).1
      obtain ⟨rest, resolved', split⟩ := resolveClasses_cons_ok step resolved
      obtain ⟨makesWay, flags⟩ := ih longer longerAscending resolved'
      have carries : travel framework named hs (v :: vs) =
          (Equiv.swap classes.length found).trans
            (travel framework named (promote hs found).1 vs) := by
        ext i
        simp only [travel_found search, place, Equiv.trans_apply]
      have count : designated.length = rest.length + 1 := by simp [split]
      simp only [List.length_append, List.length_singleton] at makesWay flags
      have back : classes.length + 1 + rest.length = classes.length + designated.length := by omega
      simp only [back] at makesWay flags
      have lower : classes.length ≤ found := place ▸ slot_le hs found
      refine ⟨carries ▸ makesWay.exchange (by omega) lower, ?_⟩
      intro i
      simp only [carries, Equiv.trans_apply, flags, getElem?_promote bound, place,
        Equiv.swap_apply_self, Option.map_map]
      have filled := makesWay.before classes.length (Nat.lt_succ_self _)
      by_cases new : Equiv.swap classes.length found i = classes.length
      · have already : ¬ classes.length + 1 ≤ classes.length := by omega
        have inside : classes.length < classes.length + designated.length := by omega
        simp [new, filled, already, inside]
      · -- nothing else is carried to the first place, so the flags are those of the later classes
        have notFirst : travel framework named (promote hs found).1 vs
            (Equiv.swap classes.length found i) ≠ classes.length := by
          intro same
          exact new (Equiv.injective _ (same.trans filled.symm))
        have lower_iff : ∀ j, j ≠ classes.length →
            (classes.length + 1 ≤ j ↔ classes.length ≤ j) := by omega
        simp [new, lower_iff _ notFirst]
    · obtain ⟨rest, resolved', split⟩ := resolveClasses_cons_ok step resolved
      have carries : travel framework named hs (v :: vs) = travel framework named hs vs := by
        ext i
        exact travel_missing search i
      have same : designated = rest := by simpa using split
      simp only [carries, same]
      exact ih cluster restAscending resolved'
    · simp [resolveClasses, step] at resolved

/-- Where a resolution carries the header at each place. -/
def carriedTo (framework : Option String) (named : Visibility → Option String)
    (hs : List Header) : Equiv.Perm Nat :=
  travel framework named hs Visibility.concrete

/-- The header at this place of the input is one of those that are designated. -/
def Chosen (framework : Option String) (named : Visibility → Option String) (hs : List Header)
    (designated : List (Visibility × Nat)) (i : Nat) : Prop :=
  ∃ v, (v, carriedTo framework named hs i) ∈ designated

theorem chosen_iff {hs final : List Header} {designated : List (Visibility × Nat)}
    (fresh : ∀ h ∈ hs, h.isUmbrella = false)
    (resolved : resolve framework named hs = (final, .ok designated)) {i : Nat} :
    Chosen framework named hs designated i ↔
      carriedTo framework named hs i < designated.length := by
  obtain ⟨places, _, _⟩ := cluster_of_resolved fresh (by decide) resolved
  unfold Chosen
  generalize carriedTo framework named hs i = j
  constructor
  · rintro ⟨v, inside⟩
    rw [places] at inside
    have turn := List.mk_mem_zipIdx_iff_getElem?.mp inside
    simpa using (List.getElem?_eq_some_iff.mp turn).1
  · intro inside
    have bound : j < (designated.map Prod.fst).length := by simpa using inside
    have turn := List.mk_mem_zipIdx_iff_getElem?.mpr (List.getElem?_eq_getElem bound)
    rw [← places] at turn
    exact ⟨_, turn⟩

/-- Resolving the classes of a sequence without umbrella headers flags the designated headers and
changes nothing else in any header. Behind the places that the designated headers take, all others
stay. Those that have to leave these places go to places from which designated headers have come. -/
theorem others_stay_or_fill_vacancies {hs final : List Header}
    {designated : List (Visibility × Nat)} (fresh : ∀ h ∈ hs, h.isUmbrella = false)
    (resolved : resolve framework named hs = (final, .ok designated)) :
    (∀ i, Chosen framework named hs designated i →
      final[carriedTo framework named hs i]? = hs[i]?.map Header.designate) ∧
      (∀ i, ¬ Chosen framework named hs designated i →
        final[carriedTo framework named hs i]? = hs[i]?) ∧
      (∀ i, designated.length ≤ i → ¬ Chosen framework named hs designated i →
        carriedTo framework named hs i = i ∧ final[i]? = hs[i]?) ∧
      ∀ i < designated.length, ¬ Chosen framework named hs designated i →
        designated.length ≤ carriedTo framework named hs i ∧
          Chosen framework named hs designated (carriedTo framework named hs i) := by
  have run := travel_makesWay (.of_fresh framework named fresh) (by decide) resolved
  simp only [List.length_nil, Nat.zero_le, true_and, Nat.zero_add] at run
  simp only [chosen_iff fresh resolved, Nat.not_lt, carriedTo]
  generalize travel framework named hs Visibility.concrete = carry at run ⊢
  obtain ⟨makesWay, flags⟩ := run
  have unflagged : ∀ i, designated.length ≤ carry i → final[carry i]? = hs[i]? := by
    intro i outside
    have there := flags i
    simpa [Nat.not_lt.mpr outside] using there
  refine ⟨?_, unflagged, ?_, ?_⟩
  · intro i inside
    have there := flags i
    simpa [inside] using there
  · intro i behind outside
    have stays := makesWay.behind i behind outside
    have there := unflagged i outside
    simp only [stays] at there
    exact ⟨stays, there⟩
  · intro i front outside
    exact ⟨outside, makesWay.leaving i front outside⟩

/-- The private umbrella header goes first to where the public one stood and then back to the
second place; so the project header ends up where the public one stood. -/
def crossedHeaders : List Header :=
  [.listed .priv (Path.ofString "/S/Foo_Private.h"), .listed .proj (Path.ofString "/S/impl.h"),
    .listed .pub (Path.ofString "/S/Foo.h")]

theorem crossedHeaders_fill_vacancies :
    (∀ h ∈ crossedHeaders, h.isUmbrella = false) ∧
      (resolve (some "Foo") (fun _ => none) crossedHeaders).2 = .ok [(.pub, 0), (.priv, 1)] ∧
      ¬ Chosen (some "Foo") (fun _ => none) crossedHeaders [(.pub, 0), (.priv, 1)] 1 ∧
      carriedTo (some "Foo") (fun _ => none) crossedHeaders 1 = 2 ∧
      (resolve (some "Foo") (fun _ => none) crossedHeaders).1[2]? = crossedHeaders[1]? ∧
      Chosen (some "Foo") (fun _ => none) crossedHeaders [(.pub, 0), (.priv, 1)] 2 := by
  have fresh : ∀ h ∈ crossedHeaders, h.isUmbrella = false := by decide
  have resolved : resolve (some "Foo") (fun _ => none) crossedHeaders =
      ((resolve (some "Foo") (fun _ => none) crossedHeaders).1, .ok [(.pub, 0), (.priv, 1)]) := rfl
  have there : carriedTo (some "Foo") (fun _ => none) crossedHeaders 1 = 2 := rfl
  obtain ⟨_, unflagged, _, leaving⟩ := others_stay_or_fill_vacancies fresh resolved
  have other : ¬ Chosen (some "Foo") (fun _ => none) crossedHeaders [(.pub, 0), (.priv, 1)] 1 := by
    rw [chosen_iff fresh resolved, there]
    decide
  exact ⟨fresh, rfl, other, there, unflagged 1 other, (leaving 1 (by decide) other).2⟩

end LibraryHeaders.Umbrella
