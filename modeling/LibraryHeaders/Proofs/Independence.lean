import LibraryHeaders.Proofs.Stages

/-!
# Exclusion and designation do not meddle

Exclusion looks at the path and the class of each header by itself and raises one flag. Designating
umbrella headers looks at paths, classes and the other flag, and moves headers. So neither sees what
the other does, and the two stages can change places: the sequence, the warnings, the places of the
umbrella headers and the problems of either stage are the same in both orders.
-/

namespace LibraryHeaders

namespace Umbrella

/-- A change made to every header that the designation of umbrella headers does not see. -/
structure Unseen (f : Header → Header) : Prop where
  path : ∀ h, (f h).path = h.path
  visibility : ∀ h, (f h).visibility = h.visibility
  isUmbrella : ∀ h, (f h).isUmbrella = h.isUmbrella
  designate : ∀ h, f h.designate = (f h).designate

namespace Unseen

variable {f : Header → Header}

theorem fits_eq (unseen : Unseen f) (framework : Option String) (v : Visibility)
    (named : Option String) (h : Header) :
    fits framework v named (f h) = fits framework v named h := by
  simp only [fits, qualifies, unseen.path, unseen.visibility]

theorem findIdx?_fits (unseen : Unseen f) (framework : Option String) (v : Visibility)
    (named : Option String) (hs : List Header) :
    (hs.map f).findIdx? (fits framework v named) = hs.findIdx? (fits framework v named) := by
  have same : fits framework v named ∘ f = fits framework v named :=
    funext (unseen.fits_eq framework v named)
  rw [List.findIdx?_map, same]

theorem slot_map (unseen : Unseen f) (hs : List Header) (found : Nat) :
    slot (hs.map f) found = slot hs found := by
  have same : (fun h : Header => !h.isUmbrella) ∘ f = fun h => !h.isUmbrella := by
    funext h
    exact congrArg Bool.not (unseen.isUmbrella h)
  rw [slot, List.findIdx_map, same, slot]

/-- Promoting a changed header and changing all headers after a promotion come to the same. -/
theorem promote_map (unseen : Unseen f) {hs : List Header} {found : Nat}
    (bound : found < hs.length) :
    promote (hs.map f) found = ((promote hs found).1.map f, (promote hs found).2) := by
  have inside : found < (hs.map f).length := by rw [List.length_map]; exact bound
  refine Prod.ext (List.ext_getElem? ?_) ?_
  · intro n
    rw [getElem?_promote inside, unseen.slot_map, List.getElem?_map, List.getElem?_map,
      getElem?_promote bound, Option.map_map, Option.map_map]
    congr 1
    split
    · exact funext fun h => (unseen.designate h).symm
    · rfl
  · rw [promote_eq inside, promote_eq bound]
    exact unseen.slot_map hs found

theorem resolveClass_map (unseen : Unseen f) (framework : Option String) (v : Visibility)
    (named : Option String) (hs : List Header) :
    resolveClass framework v named (hs.map f) =
      ((resolveClass framework v named hs).1.map f, (resolveClass framework v named hs).2) := by
  rw [resolveClass_eq, resolveClass_eq, unseen.findIdx?_fits]
  cases search : hs.findIdx? (fits framework v named) with
  | none => rfl
  | some found =>
    have bound := (List.findIdx?_eq_some_iff_getElem.mp search).1
    simp only [unseen.promote_map bound]

theorem resolveClasses_map (unseen : Unseen f) (framework : Option String)
    (named : Visibility → Option String) (hs : List Header) (vs : List Visibility) :
    resolveClasses framework named (hs.map f) vs =
      ((resolveClasses framework named hs vs).1.map f,
        (resolveClasses framework named hs vs).2) := by
  induction vs generalizing hs with
  | nil => rfl
  | cons v vs ih =>
    rw [resolveClasses, resolveClasses, unseen.resolveClass_map]
    cases resolveClass framework v (named v) hs with
    | mk hs' outcome =>
      cases outcome with
      | error problem => rfl
      | ok index => simp only [ih]

end Unseen

end Umbrella

namespace Exclusion

variable {fs : FileSystem} {ds : List Directive}

theorem unseen_flag (fs : FileSystem) (ds : List Directive) :
    Umbrella.Unseen fun h => if Finds fs ds h then h.exclude else h where
  path h := by split <;> rfl
  visibility h := by split <;> rfl
  isUmbrella h := by split <;> rfl
  designate h := by
    have same : Finds fs ds h.designate ↔ Finds fs ds h := Iff.rfl
    simp only [same]
    split <;> rfl

/-- Designating after flagging comes to flagging after designating. -/
theorem resolve_flagged (fs : FileSystem) (ds : List Directive) (framework : Option String)
    (named : Visibility → Option String) (hs : List Header) :
    Umbrella.resolve framework named (flagged fs ds hs) =
      (flagged fs ds (Umbrella.resolve framework named hs).1,
        (Umbrella.resolve framework named hs).2) :=
  (unseen_flag fs ds).resolveClasses_map framework named hs Visibility.concrete

/-- Which globs match no header depends on the paths and classes that there are. -/
theorem idle_carried {before after : List Header} (carried : Carried before after) :
    idle ds after = idle ds before := by
  have same (d : Directive) : (∀ h ∈ after, ¬ d.Matches h) ↔ ∀ h ∈ before, ¬ d.Matches h := by
    have found : (∃ h ∈ after, d.Matches h) ↔ ∃ h ∈ before, d.Matches h := by
      apply carried.exists_iff
      intro h h' raised
      rw [Directive.Matches, Directive.Matches, raised.path, raised.visibility]
    simpa only [not_exists, not_and] using found.not
  simp only [idle, same]

end Exclusion

/-- Exclusion and the designation of umbrella headers give the same sequence in both orders, and
each of them ends as it does when it comes first: exclusion with its warnings or its problem,
designation with its places or its problem, whether or not the other one fails. -/
theorem apply_resolve_comm (fs : FileSystem) (ds : List Directive) (framework : Option String)
    (named : Visibility → Option String) (hs : List Header) :
    (Umbrella.resolve framework named (Exclusion.apply fs ds hs).1).1 =
        (Exclusion.apply fs ds (Umbrella.resolve framework named hs).1).1 ∧
      (Umbrella.resolve framework named (Exclusion.apply fs ds hs).1).2 =
        (Umbrella.resolve framework named hs).2 ∧
      (Exclusion.apply fs ds (Umbrella.resolve framework named hs).1).2 =
        (Exclusion.apply fs ds hs).2 := by
  rw [Exclusion.apply_eq, Exclusion.apply_eq]
  cases ds.findSome? (Exclusion.dangling? fs) with
  | some problem => exact ⟨rfl, rfl, rfl⟩
  | none =>
    dsimp only
    rw [Exclusion.resolve_flagged]
    have carried := Umbrella.resolveClasses_carried framework named hs Visibility.concrete
    exact ⟨rfl, rfl, congrArg Except.ok (Exclusion.idle_carried carried)⟩

end LibraryHeaders
