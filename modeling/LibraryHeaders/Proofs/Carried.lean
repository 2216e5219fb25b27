import LibraryHeaders.Header
import Mathlib.Data.List.Forall2
import Mathlib.Data.List.Perm.Basic

/-!
# Sequences that lose nothing

What a resolution may do to a header sequence: it moves headers and raises their flags. A sequence
carries another one over if it holds the same headers up to that, each as often as before. The
relation is a preorder, so it passes through a resolution stage by stage.
-/

namespace LibraryHeaders

/-- The same header later on: flags are only ever raised. -/
structure Header.RaisedTo (before after : Header) : Prop where
  path : after.path = before.path
  visibility : after.visibility = before.visibility
  includeName : after.includeName = before.includeName
  isExtra : after.isExtra = before.isExtra
  excluded : before.isExcluded = true → after.isExcluded = true
  umbrella : before.isUmbrella = true → after.isUmbrella = true

namespace Header.RaisedTo

theorem refl (h : Header) : h.RaisedTo h := ⟨rfl, rfl, rfl, rfl, id, id⟩

theorem trans {a b c : Header} (ab : a.RaisedTo b) (bc : b.RaisedTo c) : a.RaisedTo c :=
  ⟨bc.path.trans ab.path, bc.visibility.trans ab.visibility, bc.includeName.trans ab.includeName,
    bc.isExtra.trans ab.isExtra, fun h => bc.excluded (ab.excluded h),
    fun h => bc.umbrella (ab.umbrella h)⟩

/-- Headers that are raised one by one can be raised again. -/
theorem forall_trans {as bs cs : List Header} (ab : List.Forall₂ Header.RaisedTo as bs)
    (bc : List.Forall₂ Header.RaisedTo bs cs) : List.Forall₂ Header.RaisedTo as cs := by
  induction ab generalizing cs with
  | nil => exact bc
  | cons head _ ih =>
    cases bc with
    | cons next rest => exact .cons (head.trans next) (ih rest)

theorem exclude (h : Header) : h.RaisedTo h.exclude := ⟨rfl, rfl, rfl, rfl, fun _ => rfl, id⟩

theorem designate (h : Header) : h.RaisedTo h.designate := ⟨rfl, rfl, rfl, rfl, id, fun _ => rfl⟩

end Header.RaisedTo

/-- Every header of `before` is in `after` once, moved and with flags raised at most, and nothing
else is there. -/
def Carried (before after : List Header) : Prop :=
  ∃ moved, moved.Perm before ∧ List.Forall₂ Header.RaisedTo moved after

namespace Carried

theorem of_perm {before after : List Header} (moved : after.Perm before) :
    Carried before after :=
  ⟨after, moved, List.forall₂_same.mpr fun h _ => .refl h⟩

theorem of_raised {before after : List Header}
    (raised : List.Forall₂ Header.RaisedTo before after) : Carried before after :=
  ⟨before, .refl _, raised⟩

theorem refl (hs : List Header) : Carried hs hs := of_perm (.refl hs)

theorem trans {a b c : List Header} (ab : Carried a b) (bc : Carried b c) : Carried a c := by
  obtain ⟨m, mPerm, mRaised⟩ := ab
  obtain ⟨n, nPerm, nRaised⟩ := bc
  -- the second move is done first, on the headers as they were before they were raised to `b`
  obtain ⟨k, raised, perm⟩ := List.perm_comp_forall₂ nPerm mRaised.flip
  refine ⟨k, perm.trans mPerm, ?_⟩
  exact Header.RaisedTo.forall_trans raised.flip nRaised

theorem map {f : Header → Header} (raises : ∀ h, Header.RaisedTo h (f h)) (hs : List Header) :
    Carried hs (hs.map f) :=
  of_raised (List.forall₂_map_right_iff.mpr (List.forall₂_same.mpr fun h _ => raises h))

theorem modify {f : Header → Header} (raises : ∀ h, Header.RaisedTo h (f h)) (hs : List Header)
    (i : Nat) : Carried hs (hs.modify i f) := by
  refine of_raised ?_
  induction hs generalizing i with
  | nil => cases i <;> exact .nil
  | cons h hs ih =>
    cases i with
    | zero => exact .cons (raises h) (List.forall₂_same.mpr fun h _ => .refl h)
    | succ i => exact .cons (.refl h) (ih i)

theorem length_eq {before after : List Header} (carried : Carried before after) :
    after.length = before.length := by
  obtain ⟨moved, perm, raised⟩ := carried
  exact raised.length_eq.symm.trans perm.length_eq

/-- Every header of a sequence that is carried over comes from one that was there. -/
theorem exists_raisedTo {before after : List Header} (carried : Carried before after)
    {h' : Header} (mem : h' ∈ after) : ∃ h ∈ before, h.RaisedTo h' := by
  obtain ⟨moved, perm, raised⟩ := carried
  simp only [← perm.mem_iff]
  clear perm
  induction raised with
  | nil => cases mem
  | cons head _ ih =>
    rcases List.mem_cons.mp mem with rfl | later
    · exact ⟨_, List.mem_cons_self, head⟩
    · obtain ⟨h, hh, raised⟩ := ih later
      exact ⟨h, List.mem_cons_of_mem _ hh, raised⟩

/-- Every header of a sequence that is carried over is still there. -/
theorem exists_raisedFrom {before after : List Header} (carried : Carried before after)
    {h : Header} (mem : h ∈ before) : ∃ h' ∈ after, h.RaisedTo h' := by
  obtain ⟨moved, perm, raised⟩ := carried
  rw [← perm.mem_iff] at mem
  clear perm
  induction raised with
  | nil => cases mem
  | cons head _ ih =>
    rcases List.mem_cons.mp mem with rfl | later
    · exact ⟨_, List.mem_cons_self, head⟩
    · obtain ⟨h', hh', raised⟩ := ih later
      exact ⟨h', List.mem_cons_of_mem _ hh', raised⟩

/-- What path and class decide is found before and after alike. -/
theorem exists_iff {before after : List Header} (carried : Carried before after)
    {P : Header → Prop} (kept : ∀ h h', h.RaisedTo h' → (P h' ↔ P h)) :
    (∃ h ∈ after, P h) ↔ ∃ h ∈ before, P h := by
  obtain ⟨moved, perm, raised⟩ := carried
  have moves : (∃ h ∈ moved, P h) ↔ ∃ h ∈ before, P h := by
    simp only [perm.mem_iff]
  rw [← moves]
  clear moves perm
  induction raised with
  | nil => simp
  | cons head _ ih => simp [ih, kept _ _ head]

end Carried

end LibraryHeaders
