import LibraryHeaders.Umbrella
import LibraryHeaders.Proofs.Carried
import Mathlib.Logic.Equiv.Basic

/-!
# One designation

What designating the umbrella header of one class does to a sequence. The class asks for one kind
of header, the first such header is flagged, and it exchanges places with whatever stands in its
slot: behind the umbrella headers at the front, or where it was found if it stands before that.
`resolveClass_eq` is all that later proofs need to know of the steps.
-/

namespace LibraryHeaders.Umbrella

variable {framework named : Option String} {v : Visibility}

/-- What a class asks of its umbrella header. -/
def wanted? (framework : Option String) (v : Visibility) (named : Option String) : Option Rule :=
  match named.filter (· ≠ "") with
  | some entry => some (.contains entry.toList)
  | none => (framework.filter (· ≠ "")).bind (conventional? · v)

/-- A header of the class that is what the class asks for. A rule that is too large asks for none. -/
def fits (framework : Option String) (v : Visibility) (named : Option String) (h : Header) : Bool :=
  ((wanted? framework v named).bind Rule.compiled?).any (qualifies v · h)

/-- Where the umbrella header that was found at some place is put. -/
def slot (hs : List Header) (found : Nat) : Nat := min (hs.findIdx fun h => !h.isUmbrella) found

theorem slot_le (hs : List Header) (found : Nat) : slot hs found ≤ found := Nat.min_le_right _ _

theorem isUmbrella_of_lt_slot {hs : List Header} {found i : Nat} {h : Header}
    (before : i < slot hs found) (here : hs[i]? = some h) : h.isUmbrella = true := by
  obtain ⟨bound, rfl⟩ := List.getElem?_eq_some_iff.mp here
  have skipped := List.not_of_lt_findIdx (Nat.lt_of_lt_of_le before (Nat.min_le_left _ _))
  simpa using skipped

/-- A header that makes way is no umbrella header. -/
theorem not_isUmbrella_at_slot {hs : List Header} {found : Nat} {h : Header}
    (moves : slot hs found ≠ found) (here : hs[slot hs found]? = some h) :
    h.isUmbrella = false := by
  have first : slot hs found = hs.findIdx fun h => !h.isUmbrella := by
    unfold slot at moves ⊢
    omega
  rw [first] at here
  obtain ⟨bound, rfl⟩ := List.getElem?_eq_some_iff.mp here
  have stops := List.findIdx_getElem (w := bound)
  simpa using stops

theorem getElem?_swap {hs : List Header} {i j : Nat} (hi : i < hs.length) (hj : j < hs.length)
    (n : Nat) : (swap hs i j)[n]? = hs[Equiv.swap i j n]? := by
  rw [swap, List.getElem?_eq_getElem hi, List.getElem?_eq_getElem hj]
  simp only [List.getElem?_set, List.length_set]
  by_cases atJ : n = j
  · subst atJ
    simp [hj, hi, Equiv.swap_apply_right]
  · by_cases atI : n = i
    · subst atI
      simp [hi, hj, Ne.symm atJ, Equiv.swap_apply_left]
    · simp [Ne.symm atI, Ne.symm atJ, Equiv.swap_apply_of_ne_of_ne atI atJ]

theorem swap_perm (hs : List Header) (i j : Nat) : (swap hs i j).Perm hs := by
  rw [swap]
  split
  · rename_i a b hi hj
    obtain ⟨iBound, rfl⟩ := List.getElem?_eq_some_iff.mp hi
    obtain ⟨jBound, rfl⟩ := List.getElem?_eq_some_iff.mp hj
    exact List.set_set_perm iBound jBound
  · exact .refl hs

theorem swap_self (hs : List Header) (i : Nat) : swap hs i i = hs := by
  rw [swap]
  cases here : hs[i]? with
  | none => rfl
  | some a =>
    obtain ⟨bound, rfl⟩ := List.getElem?_eq_some_iff.mp here
    simp

/-- Flagging a header leaves the slot for it where it was. -/
theorem slot_modify (hs : List Header) (found : Nat) :
    slot (hs.modify found Header.designate) found = slot hs found := by
  unfold slot
  induction hs generalizing found with
  | nil => simp
  | cons h hs ih =>
    cases found with
    | zero => simp
    | succ found =>
      have tail := ih found
      cases free : !h.isUmbrella with
      | true => simp [List.findIdx_cons, free]
      | false =>
        simp only [List.modify_succ_cons, List.findIdx_cons, free, cond_false]
        omega

theorem promote_eq {hs : List Header} {found : Nat} (bound : found < hs.length) :
    promote hs found =
      (swap (hs.modify found Header.designate) (slot hs found) found, slot hs found) := by
  have inside : found < (hs.modify found Header.designate).length := by simpa using bound
  rw [promote, ← slot_modify]
  generalize hs.modify found Header.designate = flagged at inside
  cases search : flagged.findIdx? (fun h => !h.isUmbrella) with
  | none =>
    have last := List.findIdx?_eq_none_iff_findIdx_eq.mp search
    simp only [slot, last]
    rw [Nat.min_eq_right (by omega), swap_self]
  | some front =>
    obtain ⟨_, first⟩ := List.findIdx?_eq_some_iff_findIdx_eq.mp search
    simp only [slot, first]
    split
    · rw [Nat.min_eq_left (by omega)]
    · rw [Nat.min_eq_right (by omega), swap_self]

/-- The header at every place after a promotion, and where it comes from. -/
theorem getElem?_promote {hs : List Header} {found : Nat} (bound : found < hs.length) (n : Nat) :
    (promote hs found).1[n]? =
      (hs[Equiv.swap (slot hs found) found n]?).map
        (if n = slot hs found then Header.designate else id) := by
  have lower := slot_le hs found
  rw [promote_eq bound]
  rw [getElem?_swap (by rw [List.length_modify]; omega) (by rw [List.length_modify]; omega),
    List.getElem?_modify]
  by_cases atSlot : n = slot hs found
  · subst atSlot
    simp [Equiv.swap_apply_left]
  · have elsewhere : found ≠ Equiv.swap (slot hs found) found n := by
      rw [Ne, eq_comm, Equiv.swap_apply_eq_iff, Equiv.swap_apply_right]
      exact atSlot
    simp [elsewhere, atSlot]

/-- Followed to its new place, every header is raised at most. -/
theorem promote_raises {hs : List Header} {found : Nat} (bound : found < hs.length) (n : Nat) :
    ∃ raise : Header → Header, (∀ h, Header.RaisedTo h (raise h)) ∧
      (promote hs found).1[Equiv.swap (slot hs found) found n]? = hs[n]?.map raise := by
  have there := getElem?_promote bound (Equiv.swap (slot hs found) found n)
  rw [Equiv.swap_apply_self] at there
  refine ⟨_, ?_, there⟩
  split
  · exact Header.RaisedTo.designate
  · exact Header.RaisedTo.refl

theorem promote_carried (hs : List Header) (found : Nat) : Carried hs (promote hs found).1 := by
  have flagged := Carried.modify Header.RaisedTo.designate hs found
  rw [promote]
  split
  · split
    · exact flagged.trans (.of_perm (swap_perm _ _ _))
    · exact flagged
  · exact flagged

theorem designate_eq (v : Visibility) (rule : Option Rule) (hs : List Header) :
    designate v rule hs =
      match hs.findIdx? fun h => rule.any (qualifies v · h) with
      | some found => ((promote hs found).1, some (promote hs found).2)
      | none => (hs, none) := by
  rw [designate]
  cases rule with
  | some rule => rfl
  | none =>
    have nowhere : hs.findIdx? (fun h => (none : Option Rule).any (qualifies v · h)) = none :=
      List.findIdx?_eq_none_iff.mpr fun _ _ => rfl
    rw [nowhere]
    rfl

/-- One class in turn: its first fitting header is promoted, and only a name that nothing fits is a
problem. -/
theorem resolveClass_eq (framework : Option String) (v : Visibility) (named : Option String)
    (hs : List Header) :
    resolveClass framework v named hs =
      match hs.findIdx? (fits framework v named) with
      | some found => ((promote hs found).1, .ok (some (promote hs found).2))
      | none => (hs, match named.filter (· ≠ "") with
        | some entry => .error (.noSuchUmbrella entry v)
        | none => .ok none) := by
  have fitting : fits framework v named = fun h =>
      ((wanted? framework v named).bind Rule.compiled?).any (qualifies v · h) := rfl
  rw [resolveClass, fitting]
  cases given : named.filter (· ≠ "") with
  | some entry =>
    simp only [wanted?, given, Option.bind_some, designate_eq]
    generalize hs.findIdx? (fun h => Option.any (qualifies v · h) _) = search
    cases search <;> rfl
  | none =>
    simp only [wanted?, given, designate_eq]
    generalize hs.findIdx? (fun h => Option.any (qualifies v · h) _) = search
    cases search <;> rfl

/-- What can come of one class: a promotion, nothing, or a problem with a name. -/
theorem resolveClass_cases (framework : Option String) (v : Visibility) (named : Option String)
    (hs : List Header) :
    (∃ found, hs.findIdx? (fits framework v named) = some found ∧
      resolveClass framework v named hs = ((promote hs found).1, .ok (some (slot hs found)))) ∨
    (hs.findIdx? (fits framework v named) = none ∧
      resolveClass framework v named hs = (hs, .ok none)) ∨
    (∃ entry, hs.findIdx? (fits framework v named) = none ∧ named = some entry ∧ entry ≠ "" ∧
      resolveClass framework v named hs = (hs, .error (.noSuchUmbrella entry v))) := by
  have step := resolveClass_eq framework v named hs
  cases search : hs.findIdx? (fits framework v named) with
  | some found =>
    have bound := (List.findIdx?_eq_some_iff_getElem.mp search).1
    have place : (promote hs found).2 = slot hs found := by rw [promote_eq bound]
    simp only [search, place] at step
    exact Or.inl ⟨found, rfl, step⟩
  | none =>
    rw [search] at step
    cases given : named.filter (· ≠ "") with
    | none =>
      rw [given] at step
      exact Or.inr (Or.inl ⟨rfl, step⟩)
    | some entry =>
      rw [given] at step
      obtain ⟨same, nonempty⟩ := Option.filter_eq_some_iff.mp given
      exact Or.inr (Or.inr ⟨entry, rfl, same, by simpa using nonempty, step⟩)

theorem resolveClass_carried (framework : Option String) (v : Visibility) (named : Option String)
    (hs : List Header) : Carried hs (resolveClass framework v named hs).1 := by
  rw [resolveClass_eq]
  cases hs.findIdx? (fits framework v named) with
  | some found => exact promote_carried hs found
  | none => exact .refl hs

theorem resolveClasses_carried (framework : Option String) (named : Visibility → Option String)
    (hs : List Header) (vs : List Visibility) :
    Carried hs (resolveClasses framework named hs vs).1 := by
  induction vs generalizing hs with
  | nil => exact .refl hs
  | cons v vs ih =>
    have step := resolveClass_carried framework v (named v) hs
    rw [resolveClasses]
    split
    · rename_i hs' e result
      rw [result] at step
      exact step
    · rename_i hs' index result
      rw [result] at step
      exact step.trans (ih hs')

end LibraryHeaders.Umbrella
