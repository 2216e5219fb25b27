import LibraryHeaders.FileSystem.Table
import LibraryHeaders.Session
import LibraryHeaders.Proofs.Additions
import Mathlib.Logic.Relation

/-!
# Whole sessions

What holds of a header sequence after any steps in any order, whether they succeed or fail: the
umbrella headers stand at the front, every header has a class that it can carry, and only extra
headers have include names. From one state to every later one no header is lost, no flag is cleared,
and an umbrella header keeps its place.

Every step is a run of three changes: fresh headers are put behind the sequence, excluded headers
are flagged, or one header is promoted. Only the promotion moves headers. It exchanges the promoted
header with the one right behind the umbrella headers, so no umbrella header is moved as long as
these stand at the front.
-/

namespace LibraryHeaders

/-- The changes that the steps of a session are made of. -/
inductive Change : List Header → List Header → Prop where
  | add {before after : List Header} (adds : Adds before after) : Change before after
  | exclude (fs : FileSystem) (ds : List Directive) (hs : List Header) :
      Change hs (Exclusion.flagged fs ds hs)
  | promote {hs : List Header} {found : Nat} (bound : found < hs.length) :
      Change hs (Umbrella.promote hs found).1

/-- The first `n` headers are the umbrella headers. -/
structure UmbrellasFirst (n : Nat) (hs : List Header) : Prop where
  bound : n ≤ hs.length
  isUmbrella_iff : ∀ (i : Nat) (h : Header), hs[i]? = some h → (h.isUmbrella = true ↔ i < n)

/-- A header that has a class it can carry, and an include name only if a directive added it. -/
structure Header.Regular (h : Header) : Prop where
  concrete : h.visibility ∈ Visibility.concrete
  unnamed : h.isExtra = false → h.includeName = none

/-- What every sequence of a session satisfies. -/
structure WellKept (hs : List Header) : Prop where
  umbrellasFirst : ∃ n, UmbrellasFirst n hs
  regular : ∀ h ∈ hs, h.Regular

/-- A later state of a sequence. Every header has a place of its own in it, where it is the same but
for flags that have been raised; the place of an umbrella header is the one that it had. -/
structure Advances (before after : List Header) : Prop where
  length_le : before.length ≤ after.length
  places : ∃ place : Nat → Nat, place.Injective ∧
    ∀ (i : Nat) (h : Header), before[i]? = some h →
      (∃ h', after[place i]? = some h' ∧ h.RaisedTo h') ∧ (h.isUmbrella = true → place i = i)

theorem Header.Fresh.not_isUmbrella {h : Header} (fresh : h.Fresh) : h.isUmbrella = false := by
  cases fresh <;> rfl

theorem Header.Fresh.regular {h : Header} (fresh : h.Fresh) : h.Regular := by
  cases fresh with
  | listed concrete => exact ⟨concrete, fun _ => rfl⟩
  | extra concrete => exact ⟨concrete, nofun⟩

theorem Header.RaisedTo.regular {h h' : Header} (raised : h.RaisedTo h') (regular : h.Regular) :
    h'.Regular := by
  refine ⟨raised.visibility ▸ regular.concrete, ?_⟩
  rw [raised.isExtra, raised.includeName]
  exact regular.unnamed

theorem Carried.regular {before after : List Header} (carried : Carried before after)
    (regular : ∀ h ∈ before, h.Regular) : ∀ h ∈ after, h.Regular := by
  intro h' mem
  obtain ⟨h, hh, raised⟩ := carried.exists_raisedTo mem
  exact raised.regular (regular h hh)

namespace UmbrellasFirst

variable {n : Nat} {hs : List Header}

theorem nil : UmbrellasFirst 0 [] := ⟨Nat.le_refl 0, fun _ _ here => by cases here⟩

theorem add {after : List Header} (first : UmbrellasFirst n hs) (adds : Adds hs after) :
    UmbrellasFirst n after := by
  obtain ⟨new, fresh, rfl⟩ := adds
  have bound := first.bound
  refine ⟨by rw [List.length_append]; omega, ?_⟩
  intro i h here
  by_cases old : i < hs.length
  · rw [List.getElem?_append_left old] at here
    exact first.isUmbrella_iff i h here
  · rw [List.getElem?_append_right (Nat.le_of_not_lt old)] at here
    rw [(fresh h (List.mem_of_getElem? here)).not_isUmbrella]
    exact iff_of_false nofun (by omega)

theorem exclude (first : UmbrellasFirst n hs) (fs : FileSystem) (ds : List Directive) :
    UmbrellasFirst n (Exclusion.flagged fs ds hs) := by
  refine ⟨by rw [Exclusion.flagged, List.length_map]; exact first.bound, ?_⟩
  intro i h' here
  rw [Exclusion.flagged, List.getElem?_map] at here
  obtain ⟨h, old, rfl⟩ := Option.map_eq_some_iff.mp here
  have same : (if Exclusion.Finds fs ds h then h.exclude else h).isUmbrella = h.isUmbrella := by
    split <;> rfl
  rw [same]
  exact first.isUmbrella_iff i h old

/-- The slot of a promoted header is right behind the umbrella headers. -/
theorem slot_eq (first : UmbrellasFirst n hs) {found : Nat} (bound : found < hs.length) :
    Umbrella.slot hs found = min n found := by
  have upper := Umbrella.slot_le hs found
  have slotBound : Umbrella.slot hs found < hs.length := by omega
  have here : hs[Umbrella.slot hs found]? = some hs[Umbrella.slot hs found] :=
    List.getElem?_eq_getElem slotBound
  -- a slot further in front would hold an umbrella header, and one further back would leave a header
  -- that is none before it
  rcases Nat.lt_trichotomy (Umbrella.slot hs found) (min n found) with less | same | more
  · have stays := first.isUmbrella_iff _ _ here
    rw [Umbrella.not_isUmbrella_at_slot (by omega) here] at stays
    have flagged := stays.mpr (by omega)
    cases flagged
  · exact same
  · have inside : n < hs.length := by omega
    have next : hs[n]? = some hs[n] := List.getElem?_eq_getElem inside
    have ahead : n < Umbrella.slot hs found := by omega
    have within := (first.isUmbrella_iff n _ next).mp (Umbrella.isUmbrella_of_lt_slot ahead next)
    omega

/-- A promotion keeps the umbrella headers at the front; there is one more, unless it was one. -/
theorem promote (first : UmbrellasFirst n hs) {found : Nat} (bound : found < hs.length) :
    UmbrellasFirst (max n (min n found + 1)) (Umbrella.promote hs found).1 := by
  have slot := first.slot_eq bound
  have limit := first.bound
  have length := (Umbrella.promote_carried hs found).length_eq
  refine ⟨by omega, ?_⟩
  intro i h' here
  rw [Umbrella.getElem?_promote bound, slot] at here
  obtain ⟨h, old, rfl⟩ := Option.map_eq_some_iff.mp here
  by_cases atSlot : i = min n found
  · rw [if_pos atSlot]
    exact iff_of_true rfl (by omega)
  · rw [if_neg atSlot, id, first.isUmbrella_iff _ _ old]
    by_cases atFound : i = found
    · rw [atFound, Equiv.swap_apply_right]
      omega
    · rw [Equiv.swap_apply_of_ne_of_ne atSlot atFound]
      omega

end UmbrellasFirst

namespace Advances

theorem refl (hs : List Header) : Advances hs hs :=
  ⟨Nat.le_refl _, id, Function.injective_id, fun _ h here => ⟨⟨h, here, .refl h⟩, fun _ => rfl⟩⟩

theorem trans {a b c : List Header} (ab : Advances a b) (bc : Advances b c) : Advances a c := by
  obtain ⟨shorter, first, firstInjective, firstPlaces⟩ := ab
  obtain ⟨longer, second, secondInjective, secondPlaces⟩ := bc
  refine ⟨shorter.trans longer, second ∘ first, secondInjective.comp firstInjective, ?_⟩
  intro i h here
  obtain ⟨⟨h', there, raised⟩, stays⟩ := firstPlaces i h here
  obtain ⟨⟨h'', arrived, raisedOn⟩, staysOn⟩ := secondPlaces (first i) h' there
  refine ⟨⟨h'', arrived, raised.trans raisedOn⟩, ?_⟩
  intro umbrella
  have same := stays umbrella
  exact (staysOn (raised.umbrella umbrella)).trans same

theorem add {before after : List Header} (adds : Adds before after) : Advances before after := by
  obtain ⟨new, -, rfl⟩ := adds
  refine ⟨by rw [List.length_append]; omega, id, Function.injective_id, ?_⟩
  intro i h here
  have old : i < before.length := (List.getElem?_eq_some_iff.mp here).1
  exact ⟨⟨h, by rwa [id, List.getElem?_append_left old], .refl h⟩, fun _ => rfl⟩

theorem exclude (fs : FileSystem) (ds : List Directive) (hs : List Header) :
    Advances hs (Exclusion.flagged fs ds hs) := by
  refine ⟨by rw [Exclusion.flagged, List.length_map], id, Function.injective_id, ?_⟩
  intro i h here
  refine ⟨⟨_, ?_, Exclusion.flagged_raises fs ds h⟩, fun _ => rfl⟩
  rw [Exclusion.flagged, List.getElem?_map, id, here, Option.map_some]

theorem promote {n : Nat} {hs : List Header} (first : UmbrellasFirst n hs) {found : Nat}
    (bound : found < hs.length) : Advances hs (Umbrella.promote hs found).1 := by
  have slot := first.slot_eq bound
  have length := (Umbrella.promote_carried hs found).length_eq
  refine ⟨length.ge, Equiv.swap (Umbrella.slot hs found) found, Equiv.injective _, ?_⟩
  intro i h here
  refine ⟨?_, ?_⟩
  · obtain ⟨raise, raises, there⟩ := Umbrella.promote_raises bound i
    exact ⟨raise h, by rw [there, here, Option.map_some], raises h⟩
  · -- an umbrella header stands before both places of the exchange, or nothing is exchanged
    intro umbrella
    have front := (first.isUmbrella_iff i h here).mp umbrella
    by_cases ahead : found < n
    · rw [slot, Nat.min_eq_right (by omega), Equiv.swap_self, Equiv.refl_apply]
    · exact Equiv.swap_apply_of_ne_of_ne (by omega) (by omega)

end Advances

namespace Change

variable {before after : List Header}

theorem wellKept (change : Change before after) (kept : WellKept before) : WellKept after := by
  obtain ⟨⟨n, first⟩, regular⟩ := kept
  cases change with
  | add adds =>
    refine ⟨⟨n, first.add adds⟩, ?_⟩
    obtain ⟨new, fresh, rfl⟩ := adds
    exact List.forall_mem_append.mpr ⟨regular, fun h hh => (fresh h hh).regular⟩
  | exclude fs ds =>
    exact ⟨⟨n, first.exclude fs ds⟩, (Exclusion.flagged_carried fs ds before).regular regular⟩
  | promote bound =>
    exact ⟨⟨_, first.promote bound⟩, (Umbrella.promote_carried before _).regular regular⟩

theorem advances (change : Change before after) (kept : WellKept before) :
    Advances before after := by
  obtain ⟨n, first⟩ := kept.umbrellasFirst
  cases change with
  | add adds => exact .add adds
  | exclude fs ds => exact .exclude fs ds before
  | promote bound => exact .promote first bound

/-- What a single change preserves, every run of changes preserves. -/
theorem run_wellKept_advances (run : Relation.ReflTransGen Change before after)
    (kept : WellKept before) : WellKept after ∧ Advances before after := by
  induction run with
  | refl => exact ⟨kept, .refl before⟩
  | tail _ change ih =>
    obtain ⟨keptThere, advanced⟩ := ih
    exact ⟨change.wellKept keptThere, advanced.trans (change.advances keptThere)⟩

end Change

namespace Umbrella

theorem resolveClass_changes (framework : Option String) (v : Visibility) (named : Option String)
    (hs : List Header) :
    Relation.ReflTransGen Change hs (resolveClass framework v named hs).1 := by
  rw [resolveClass_eq]
  cases search : hs.findIdx? (fits framework v named) with
  | some found =>
    exact .single (.promote (List.findIdx?_eq_some_iff_getElem.mp search).1)
  | none => exact .refl

theorem resolveClasses_changes (framework : Option String) (named : Visibility → Option String)
    (hs : List Header) (vs : List Visibility) :
    Relation.ReflTransGen Change hs (resolveClasses framework named hs vs).1 := by
  induction vs generalizing hs with
  | nil => exact .refl
  | cons v vs ih =>
    have step := resolveClass_changes framework v (named v) hs
    rw [resolveClasses]
    split
    · rename_i result
      rw [result] at step
      exact step
    · rename_i result
      rw [result] at step
      exact step.trans (ih _)

end Umbrella

namespace Session

/-- Whatever is pushed is fresh. -/
def Step.Fresh : Step → Prop
  | .push h => h.Fresh
  | _ => True

/-- One step of a session, whatever the file system and the names of headers are by then. The step
may fail, and then the session goes on from the state in which it was left. -/
def Next (s s' : Session) : Prop :=
  ∃ fs namer step, step.Fresh ∧ (apply fs namer s step).1 = s'

def start : Session := ⟨[], []⟩

/-- A step changes the headers by a run of changes. -/
theorem apply_changes (fs : FileSystem) (namer : IncludeNamer) (s : Session) {step : Step}
    (fresh : step.Fresh) :
    Relation.ReflTransGen Change s.headers (apply fs namer s step).1.headers := by
  cases step with
  | push h => exact .single (.add ⟨[h], List.forall_mem_singleton.mpr fresh, rfl⟩)
  | parse text origin => exact .single (.add (FileList.append_adds text origin s.headers))
  | load lists =>
    rw [apply]
    split
    · rename_i loaded
      exact .single (.add ⟨_, FileList.load_fresh loaded, rfl⟩)
    · exact .refl
  | extras d => exact .single (.add (Extras.append_adds fs namer d s.headers))
  | build d =>
    rw [apply]
    split
    · rename_i built
      exact .single (.add (Extras.build_adds built))
    · exact .refl
  | exclude ds =>
    rw [apply, Exclusion.apply_eq]
    cases ds.findSome? (Exclusion.dangling? fs) with
    | some problem => exact .refl
    | none => exact .single (.exclude fs ds s.headers)
  | umbrella framework named =>
    exact Umbrella.resolveClasses_changes framework named s.headers Visibility.concrete
  | umbrellaOf framework v named =>
    exact Umbrella.resolveClass_changes framework v named s.headers

theorem changes_of_steps {s s' : Session} (steps : Relation.ReflTransGen Next s s') :
    Relation.ReflTransGen Change s.headers s'.headers := by
  refine steps.lift' headers ?_
  rintro a b ⟨fs, namer, step, fresh, rfl⟩
  exact apply_changes fs namer a fresh

/-- Some steps in turn, under one file system. -/
theorem run_steps (fs : FileSystem) (namer : IncludeNamer) (s : Session) {steps : List Step}
    (fresh : ∀ step ∈ steps, step.Fresh) :
    Relation.ReflTransGen Next s (run fs namer s steps) := by
  induction steps generalizing s with
  | nil => exact .refl
  | cons step steps ih =>
    obtain ⟨here, later⟩ := List.forall_mem_cons.mp fresh
    exact .head ⟨fs, namer, step, here, rfl⟩ (ih _ later)

/-- Any steps from the empty session keep the umbrella headers at the front, every header in a class
that it can carry, and include names to extra headers. Any further steps lose no header, clear no
flag, and leave every umbrella header at its place. -/
theorem wellKept_advances_of_steps {s : Session} (reached : Relation.ReflTransGen Next start s) :
    WellKept s.headers ∧
      ∀ s', Relation.ReflTransGen Next s s' → Advances s.headers s'.headers := by
  have empty : WellKept start.headers := ⟨⟨0, .nil⟩, fun _ hh => absurd hh List.not_mem_nil⟩
  have kept := (Change.run_wellKept_advances (changes_of_steps reached) empty).1
  refine ⟨kept, ?_⟩
  intro s' later
  exact (Change.run_wellKept_advances (changes_of_steps later) kept).2

def noFiles : FileSystem := FileTable.fileSystem ⟨Path.ofString "/", [], [], []⟩

/-- The umbrella header of `Foo` is found behind another header. -/
def fooSteps : List Step :=
  [.push (.listed .pub (Path.ofString "/Bar.h")), .push (.listed .pub (Path.ofString "/Foo.h")),
    .umbrella (some "Foo") (fun _ => none)]

/-- The class gets a second umbrella header, and a third one is missing. -/
def moreSteps : List Step :=
  [.umbrellaOf none .pub (some "Bar.h"), .umbrellaOf none .pub (some "Baz.h")]

theorem fooSteps_wellKept_advances :
    let s := run noFiles IncludeName.conventional start fooSteps
    Relation.ReflTransGen Next start s ∧
      s.headers = [(Header.listed .pub (Path.ofString "/Foo.h")).designate,
        .listed .pub (Path.ofString "/Bar.h")] ∧
      WellKept s.headers ∧
      Advances s.headers (run noFiles IncludeName.conventional s moreSteps).headers := by
  have fresh : ∀ step ∈ fooSteps, step.Fresh := by
    simp only [fooSteps, List.forall_mem_cons, Step.Fresh]
    exact ⟨.listed (by decide), .listed (by decide), trivial, nofun⟩
  have reached := run_steps noFiles IncludeName.conventional start fresh
  have further : ∀ step ∈ moreSteps, step.Fresh := by
    simp only [moreSteps, List.forall_mem_cons, Step.Fresh]
    exact ⟨trivial, trivial, nofun⟩
  have later := run_steps noFiles IncludeName.conventional
    (run noFiles IncludeName.conventional start fooSteps) further
  obtain ⟨kept, advances⟩ := wellKept_advances_of_steps reached
  exact ⟨reached, by decide, kept, advances _ later⟩

end Session

end LibraryHeaders
