import LibraryHeaders.Proofs.FirstMatch

/-!
# A second run

Designating umbrella headers once more changes nothing, whatever flags the sequence had at first and
whether the first run succeeds or fails. A class is settled once the first header that fits it is an
umbrella header and all headers before that one are umbrella headers too. Promoting a header settles
its class. The promotions of later classes only exchange places behind the umbrella headers at the
front, so they unsettle no class, and a settled class designates its header where it stands.
-/

namespace LibraryHeaders.Umbrella

/-- The first header that fits the class stands at this place, and the headers up to it are umbrella
headers. -/
structure InPlace (framework : Option String) (named : Visibility → Option String) (v : Visibility)
    (hs : List Header) (place : Nat) : Prop where
  first : FirstCandidate framework named v hs place
  umbrellas : ∀ i h, i ≤ place → hs[i]? = some h → h.isUmbrella = true

/-- What resolving a class leaves: its umbrella header in place, or no header that fits. -/
def Settled (framework : Option String) (named : Visibility → Option String) (v : Visibility)
    (hs : List Header) : Option Nat → Prop
  | some place => InPlace framework named v hs place
  | none => ¬ Available framework named hs v ∧ Unnamed named v

variable {framework : Option String} {named : Visibility → Option String} {v : Visibility}
  {hs : List Header}

theorem slot_of_umbrellas {found : Nat}
    (umbrellas : ∀ i h, i ≤ found → hs[i]? = some h → h.isUmbrella = true)
    (bound : found < hs.length) : slot hs found = found := by
  by_contra moves
  have upper := slot_le hs found
  have here : hs[slot hs found]? = some hs[slot hs found] := List.getElem?_eq_getElem (by omega)
  have free := not_isUmbrella_at_slot moves here
  rw [umbrellas _ _ upper here] at free
  cases free

/-- A promotion leaves the headers before its slot as they were. -/
theorem getElem?_promote_of_lt_slot {found i : Nat} (bound : found < hs.length)
    (before : i < slot hs found) : (promote hs found).1[i]? = hs[i]? := by
  have upper := slot_le hs found
  rw [getElem?_promote bound, if_neg (by omega), Option.map_id,
    Equiv.swap_apply_of_ne_of_ne (by omega) (by omega)]
  rfl

theorem getElem?_promote_slot {found : Nat} (bound : found < hs.length) :
    (promote hs found).1[slot hs found]? = hs[found]?.map Header.designate := by
  rw [getElem?_promote bound, if_pos rfl, Equiv.swap_apply_left]

/-- The first header that fits is in place once it is promoted. -/
theorem promote_inPlace {found : Nat} (first : FirstCandidate framework named v hs found) :
    InPlace framework named v (promote hs found).1 (slot hs found) := by
  obtain ⟨⟨h, here, visibility, satisfied⟩, least⟩ := first
  have bound := (List.getElem?_eq_some_iff.mp here).1
  have upper := slot_le hs found
  have atSlot : (promote hs found).1[slot hs found]? = some h.designate := by
    rw [getElem?_promote_slot bound, here]
    rfl
  refine ⟨⟨⟨h.designate, atSlot, visibility, satisfied⟩, ?_⟩, ?_⟩
  · rintro j ⟨h', there, fit⟩
    by_contra before
    rw [getElem?_promote_of_lt_slot bound (by omega)] at there
    have := least j ⟨h', there, fit⟩
    omega
  · intro i h' upTo there
    rcases Nat.lt_or_eq_of_le upTo with before | rfl
    · rw [getElem?_promote_of_lt_slot bound before] at there
      exact isUmbrella_of_lt_slot before there
    · rw [atSlot] at there
      cases there
      rfl

namespace InPlace

variable {place : Nat}

theorem bound (settled : InPlace framework named v hs place) : place < hs.length := by
  obtain ⟨⟨h, here, _⟩, _⟩ := settled.first
  exact (List.getElem?_eq_some_iff.mp here).1

/-- Up to the place nothing moves when another header is promoted. -/
theorem getElem?_promote (settled : InPlace framework named v hs place) {found i : Nat}
    (bound : found < hs.length) (upTo : i ≤ place) : (promote hs found).1[i]? = hs[i]? := by
  have upper := slot_le hs found
  rw [Umbrella.getElem?_promote bound]
  -- a slot up to the place holds an umbrella header, and such a header does not make way
  have still : Equiv.swap (slot hs found) found i = i := by
    by_cases behind : place < found
    · by_cases slotBehind : place < slot hs found
      · exact Equiv.swap_apply_of_ne_of_ne (by omega) (by omega)
      · have here : hs[slot hs found]? = some hs[slot hs found] :=
          List.getElem?_eq_getElem (by omega)
        have free := not_isUmbrella_at_slot (by omega) here
        rw [settled.umbrellas _ _ (by omega) here] at free
        cases free
    · have same := slot_of_umbrellas (fun j h le => settled.umbrellas j h (by omega)) bound
      rw [same, Equiv.swap_self, Equiv.refl_apply]
  rw [still]
  split
  · cases here : hs[i]? with
    | none => rfl
    | some h =>
      have flagged := settled.umbrellas i h upTo here
      rw [Option.map_some, Header.designate, ← flagged]
  · exact Option.map_id_apply

theorem promote (settled : InPlace framework named v hs place) {found : Nat}
    (bound : found < hs.length) : InPlace framework named v (promote hs found).1 place := by
  refine ⟨⟨?_, ?_⟩, ?_⟩
  · obtain ⟨h, here, fit⟩ := settled.first.1
    exact ⟨h, (settled.getElem?_promote bound (Nat.le_refl _)).trans here, fit⟩
  · rintro j ⟨h, here, fit⟩
    by_contra before
    rw [settled.getElem?_promote bound (by omega)] at here
    have := settled.first.2 j ⟨h, here, fit⟩
    omega
  · intro i h upTo here
    rw [settled.getElem?_promote bound upTo] at here
    exact settled.umbrellas i h upTo here

/-- A header in place is designated where it stands, and nothing changes. -/
theorem promote_eq (settled : InPlace framework named v hs place) :
    Umbrella.promote hs place = (hs, place) := by
  have same := slot_of_umbrellas settled.umbrellas settled.bound
  refine Prod.ext (List.ext_getElem? ?_) ?_
  · intro i
    by_cases upTo : i ≤ place
    · exact settled.getElem?_promote settled.bound upTo
    · rw [Umbrella.getElem?_promote settled.bound, same, if_neg (by omega), Equiv.swap_self,
        Equiv.refl_apply]
      exact Option.map_id_apply
  · rw [Umbrella.promote_eq settled.bound]
    exact same

end InPlace

theorem resolveClass_error {hs' : List Header} {problem : Problem}
    (step : resolveClass framework v (named v) hs = (hs', .error problem)) : hs' = hs := by
  rcases resolveClass_cases framework v (named v) hs with
    ⟨_, _, result⟩ | ⟨_, result⟩ | ⟨_, _, _, _, result⟩
  · cases step.symm.trans result
  · cases step.symm.trans result
  · cases step.symm.trans result
    rfl

/-- A class that is resolved is settled. -/
theorem settled_of_resolveClass {hs' : List Header} {index : Option Nat}
    (step : resolveClass framework v (named v) hs = (hs', .ok index)) :
    Settled framework named v hs' index := by
  rcases resolveClass_cases framework v (named v) hs with
    ⟨found, search, result⟩ | ⟨search, result⟩ | ⟨_, _, _, _, result⟩
  · cases step.symm.trans result
    exact promote_inPlace (firstCandidate_iff.mpr search)
  · cases step.symm.trans result
    refine ⟨findIdx?_eq_none_iff_not_available.mp search, ?_⟩
    rw [resolveClass_eq, search] at step
    cases given : (named v).filter (· ≠ "") with
    | none => exact unnamed_iff.mpr given
    | some entry =>
      rw [given] at step
      cases step
  · cases step.symm.trans result

namespace Settled

variable {index : Option Nat}

/-- A settled class stays settled when a class is resolved. -/
theorem resolveClass (settled : Settled framework named v hs index) (w : Visibility) :
    Settled framework named v (resolveClass framework w (named w) hs).1 index := by
  cases index with
  | none =>
    have carried := resolveClass_carried framework w (named w) hs
    exact ⟨(available_carried carried).not.mpr settled.1, settled.2⟩
  | some place =>
    rw [resolveClass_eq]
    cases search : hs.findIdx? (fits framework w (named w)) with
    | none => exact settled
    | some found => exact InPlace.promote settled (List.findIdx?_eq_some_iff_getElem.mp search).1

/-- A settled class stays settled when some classes are resolved in turn. -/
theorem resolveClasses (settled : Settled framework named v hs index) (vs : List Visibility) :
    Settled framework named v (resolveClasses framework named hs vs).1 index := by
  induction vs generalizing hs with
  | nil => exact settled
  | cons w vs ih =>
    have step := settled.resolveClass w
    rw [Umbrella.resolveClasses]
    split
    · rename_i result
      rw [result] at step
      exact step
    · rename_i result
      rw [result] at step
      exact ih step

/-- Resolving a settled class changes nothing and tells its place once more. -/
theorem resolveClass_eq (settled : Settled framework named v hs index) :
    Umbrella.resolveClass framework v (named v) hs = (hs, .ok index) := by
  rw [Umbrella.resolveClass_eq]
  cases index with
  | none =>
    rw [findIdx?_eq_none_iff_not_available.mpr settled.1, unnamed_iff.mp settled.2]
  | some place =>
    simp only [firstCandidate_iff.mp (InPlace.first settled), InPlace.promote_eq settled]

end Settled

theorem FirstCandidate.unique {i j : Nat} (first : FirstCandidate framework named v hs i)
    (other : FirstCandidate framework named v hs j) : i = j :=
  Nat.le_antisymm (first.2 j other.1) (other.2 i first.1)

/-- The classes that are designated are those that have a header in place in the end, with that
place. -/
theorem mem_designated_iff {vs : List Visibility} {final : List Header}
    {designated : List (Visibility × Nat)}
    (resolved : resolveClasses framework named hs vs = (final, .ok designated)) (w : Visibility)
    (k : Nat) : (w, k) ∈ designated ↔ w ∈ vs ∧ InPlace framework named w final k := by
  induction vs generalizing hs designated with
  | nil =>
    cases resolved
    simp
  | cons v vs ih =>
    cases step : resolveClass framework v (named v) hs with
    | mk hs' outcome =>
      cases outcome with
      | error problem =>
        rw [resolveClasses, step] at resolved
        cases resolved
      | ok index =>
        obtain ⟨rest, resolvedRest, parts⟩ := resolveClasses_cons_ok step resolved
        have settled := (settled_of_resolveClass step).resolveClasses vs
        rw [resolvedRest] at settled
        have here :
            (w, k) ∈ (index.map (v, ·)).toList ↔ w = v ∧ InPlace framework named v final k := by
          cases index with
          | none =>
            refine iff_of_false (by simp) ?_
            rintro ⟨-, inPlace⟩
            obtain ⟨h, at_k, fit⟩ := inPlace.first.1
            exact settled.1 ⟨h, List.mem_of_getElem? at_k, fit⟩
          | some place =>
            simp only [Option.map_some, Option.toList_some, List.mem_singleton, Prod.mk.injEq]
            refine and_congr_right fun _ => ?_
            constructor
            · rintro rfl
              exact settled
            · intro inPlace
              exact inPlace.first.unique (InPlace.first settled)
        rw [parts, List.mem_append, here, ih resolvedRest, List.mem_cons]
        constructor
        · rintro (⟨rfl, inPlace⟩ | ⟨later, inPlace⟩)
          · exact ⟨Or.inl rfl, inPlace⟩
          · exact ⟨Or.inr later, inPlace⟩
        · rintro ⟨rfl | later, inPlace⟩
          · exact Or.inl ⟨rfl, inPlace⟩
          · exact Or.inr ⟨later, inPlace⟩

/-- The run: what is left once some classes are resolved, or a problem has come up, is left as it is
by resolving them again. -/
theorem resolveClasses_again (framework : Option String) (named : Visibility → Option String)
    (hs : List Header) (vs : List Visibility) :
    resolveClasses framework named (resolveClasses framework named hs vs).1 vs =
      resolveClasses framework named hs vs := by
  induction vs generalizing hs with
  | nil => rfl
  | cons v vs ih =>
    cases step : resolveClass framework v (named v) hs with
    | mk hs' outcome =>
      cases outcome with
      | error problem =>
        -- the class that fails has left the sequence as it found it
        cases resolveClass_error step
        simp only [resolveClasses, step]
      | ok index =>
        have settled := (settled_of_resolveClass step).resolveClasses vs
        have same : (resolveClasses framework named hs (v :: vs)).1 =
            (resolveClasses framework named hs' vs).1 := by
          rw [resolveClasses, step]
        rw [same, resolveClasses, settled.resolveClass_eq, resolveClasses, step]
        simp only [ih]

/-- Designating umbrella headers once more gives the same result, places and problem alike, and
changes nothing in the sequence. Where the first run succeeds, the places that it tells are those of
the headers that are in place in the end. -/
theorem resolve_again_eq (framework : Option String) (named : Visibility → Option String)
    (hs : List Header) :
    resolve framework named (resolve framework named hs).1 = resolve framework named hs ∧
      ∀ designated, (resolve framework named hs).2 = .ok designated →
        ∀ v k, (v, k) ∈ designated ↔
          v ∈ Visibility.concrete ∧ InPlace framework named v (resolve framework named hs).1 k := by
  refine ⟨resolveClasses_again framework named hs Visibility.concrete, ?_⟩
  intro designated ok
  exact mem_designated_iff (Prod.ext rfl ok)

end LibraryHeaders.Umbrella
