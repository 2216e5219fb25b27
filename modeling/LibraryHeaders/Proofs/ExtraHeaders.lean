import LibraryHeaders.Proofs.Stages

/-!
# Extra headers in their order

The classes that a header can carry are gone through in their order, and the list of each class
entry by entry. An entry that names a file adds one header, whether or not that file has a header
already, and the first entry that names none ends the addition. The headers of the entries before it
stay where headers are added to a sequence, and are dropped where a new sequence is built.
-/

namespace LibraryHeaders.Extras

variable {fs : FileSystem} {namer : IncludeNamer} {d : Directives} {hs : List Header}
  {e : Visibility × String} {problem : Problem}

/-- The entry leads to a file. -/
def IsThere (fs : FileSystem) (e : Visibility × String) : Prop :=
  fs.isFile (Path.ofString e.2) = true

/-- The headers that some entries add: one each, known as extra and without any other flag. -/
def added (fs : FileSystem) (namer : IncludeNamer) (es : List (Visibility × String)) :
    List Header :=
  es.map fun e =>
    { path := fs.absolute (Path.ofString e.2)
      visibility := e.1
      includeName := namer (fs.absolute (Path.ofString e.2))
      isExtra := true
      isExcluded := false
      isUmbrella := false }

theorem missing?_eq_none_iff : missing? fs e = none ↔ IsThere fs e := by
  by_cases there : IsThere fs e
  · exact iff_of_true (if_pos there) there
  · have problem : missing? fs e = some (.missingFile e.2 e.1) := if_neg there
    exact iff_of_false (by rw [problem]; exact nofun) there

theorem missing?_eq_some_iff :
    missing? fs e = some problem ↔ ¬IsThere fs e ∧ problem = .missingFile e.2 e.1 := by
  by_cases there : IsThere fs e
  · rw [missing?_eq_none_iff.mpr there]
    exact iff_of_false nofun fun absent => absent.1 there
  · have here : missing? fs e = some (.missingFile e.2 e.1) := if_neg there
    rw [here, Option.some_inj, and_iff_right there]
    exact eq_comm

theorem sound_iff {es : List (Visibility × String)} :
    Sound (missing? fs) es ↔ ∀ e ∈ es, IsThere fs e :=
  forall₂_congr fun _ _ => missing?_eq_none_iff

/-- A sequence is built exactly where the addition comes to an end. -/
theorem build_of_append {built : List Header} {outcome : Except Problem Unit}
    (appended : append fs namer d hs = (built, outcome)) :
    build fs namer d hs = outcome.map fun _ => built := by
  rw [build, appended]

theorem entries_eq_append (d : Directives) :
    entries d = (d.effective .pub).map (.pub, ·) ++
      ((d.effective .priv).map (.priv, ·) ++ (d.effective .proj).map (.proj, ·)) := by
  simp [entries, Visibility.concrete]

/-- The extra headers are all added if every entry of the public, private and project lists is
there, and only then. Otherwise the addition ends at the first entry that is not, which it names,
with exactly the entries before it added. A sequence is built in the first case; in the second there
is none. -/
theorem append_build_exact (fs : FileSystem) (namer : IncludeNamer) (d : Directives)
    (hs : List Header) :
    entries d = (d.effective .pub).map (.pub, ·) ++
      ((d.effective .priv).map (.priv, ·) ++ (d.effective .proj).map (.proj, ·)) ∧
    ((append fs namer d hs).2 = .ok () ↔ ∀ e ∈ entries d, IsThere fs e) ∧
    ((∀ e ∈ entries d, IsThere fs e) →
      append fs namer d hs = (hs ++ added fs namer (entries d), .ok ()) ∧
      build fs namer d hs = .ok (hs ++ added fs namer (entries d))) ∧
    ((¬∀ e ∈ entries d, IsThere fs e) →
      ∃ before e after, entries d = before ++ e :: after ∧ (∀ b ∈ before, IsThere fs b) ∧
        ¬IsThere fs e ∧
        append fs namer d hs = (hs ++ added fs namer before, .error (.missingFile e.2 e.1)) ∧
        build fs namer d hs = .error (.missingFile e.2 e.1)) := by
  rcases sound_or_firstProblem (missing? fs) (entries d) with
    sound | ⟨before, e, problem, first⟩
  · have there := sound_iff.mp sound
    have appended := append_of_sound sound namer hs
    refine ⟨entries_eq_append d, iff_of_true ?_ there, fun _ => ⟨appended, ?_⟩, absurd there⟩
    · rw [appended]
    · exact build_of_append appended
  · obtain ⟨absent, rfl⟩ := missing?_eq_some_iff.mp first.here
    obtain ⟨after, split⟩ := first.split
    have gap : ¬∀ e ∈ entries d, IsThere fs e := fun there =>
      absent (there e (split ▸ List.mem_append_cons_self))
    have appended := append_of_firstProblem first namer hs
    refine ⟨entries_eq_append d, iff_of_false ?_ gap, fun there => absurd there gap, fun _ => ?_⟩
    · rw [appended]
      exact nofun
    · exact ⟨before, e, after, split, sound_iff.mp first.sound, absent, appended,
        build_of_append appended⟩

end LibraryHeaders.Extras
