import LibraryHeaders.CommandLine
import LibraryHeaders.Config
import LibraryHeaders.Proofs.Json.Printing
import LibraryHeaders.Proofs.Records

/-!
# Settings in JSON values

Which JSON values are settings, and what they say: `IsSettings` goes through the fields, each with
its key, its form and its default. A table for the classes is a record too, with a field for each
class. Nothing but a boolean stands for a boolean and nothing but a table for a table; only the
install name, the lists and the umbrella paths may be null. An empty list is a list, and written
settings leave out what is not there, so they are read back as they were.
-/

namespace LibraryHeaders.Config

open CommandLine (find)
open Datum
open Json (Value)
open Json.Value

/-- A table with entries of one form for the classes that headers can carry. -/
def IsTable {α : Type} (is : α → Value → Prop) (t : ByClass (Option α)) : Value → Prop :=
  HasFields (Visibility.concrete.map fun v => (v.name, OrDefault (IsOptional is) none (find t v)))

/-- The value holds the settings and nothing that is unknown. -/
def IsSettings (c : Config) : Value → Prop :=
  HasFields
    [("install_name", OrDefault (IsOptional IsText) none c.installName),
      ("dynamic_library", OrDefault IsFlag false c.plainDylib),
      ("extra", OrDefault (IsTable (IsList IsText)) (.replicate none) c.extra),
      ("exclude", OrDefault (IsTable (IsList IsText)) (.replicate none) c.exclude),
      ("umbrella", OrDefault (IsTable IsText) (.replicate none) c.umbrella)]

/-! ## Reading tables for the classes -/

section Tables

variable {α : Type} {read : Reader α} {is : α → Value → Prop}

/-- The entry for a class. -/
def entryPart (reads : Reads (readOption read) (IsOptional is)) (v : Visibility) :
    RecordPart (ByClass (Option α)) where
  key := v.name
  Item := Option α
  read := readOption read
  get t := find t v
  set t x := t.modify v fun _ => x
  is := IsOptional is
  reads := reads

theorem entryParts_apart (reads : Reads (readOption read) (IsOptional is)) :
    RecordPart.Apart (Visibility.concrete.map (entryPart reads)) where
  keys := by
    have names : (Visibility.concrete.map Visibility.name).Nodup := by decide
    exact names
  get_set := by
    rw [List.forall_mem_map]
    intro v concrete t x
    exact CommandLine.find_modify_self concrete _
  get_set_of_ne := by
    rw [List.forall_mem_map]
    intro v _
    rw [List.forall_mem_map]
    intro w _ other t x
    exact CommandLine.find_modify_of_ne (fun same => other (congrArg Visibility.name same)) _
  ext t u same := by
    rw [List.forall_mem_map] at same
    exact CommandLine.eq_of_find same

/-- A table for the classes is read from the values that are such a table. -/
theorem reads_table (reads : Reads read is) (notNull : ∀ a, ¬is a .null) (wanted : Wanted) :
    Reads (readRecord .exact wanted (classFields (readOption read)) (.replicate none))
      (IsTable is) := by
  intro v t
  have apart := entryParts_apart (reads.option notNull)
  exact RecordPart.reads_record apart wanted (.replicate none) v t

end Tables

theorem not_isText_null (s : String) : ¬IsText s .null := nofun

theorem not_isList_null {α : Type} {is : α → Value → Prop} (as : List α) :
    ¬IsList is as .null := nofun

/-! ## Reading settings -/

/-- A part that holds lists for the classes. -/
def listsPart (key : String) (get : Config → ByClass (Option (List String)))
    (set : Config → ByClass (Option (List String)) → Config) : RecordPart Config where
  key := key
  Item := ByClass (Option (List String))
  read := readLists .exact
  get := get
  set := set
  is := IsTable (IsList IsText)
  reads := reads_table reads_string.list not_isList_null .classLists

/-- The parts of the settings. -/
def parts : List (RecordPart Config) :=
  [{  key := "install_name"
      Item := Option String
      read := readOption readString
      get := installName
      set := fun c x => { c with installName := x }
      is := IsOptional IsText
      reads := reads_string.option not_isText_null },
    { key := "dynamic_library"
      Item := Bool
      read := readBool
      get := plainDylib
      set := fun c x => { c with plainDylib := x }
      is := IsFlag
      reads := reads_bool },
    listsPart "extra" extra fun c x => { c with extra := x },
    listsPart "exclude" exclude fun c x => { c with exclude := x },
    { key := "umbrella"
      Item := ByClass (Option String)
      read := readPaths .exact
      get := umbrella
      set := fun c x => { c with umbrella := x }
      is := IsTable IsText
      reads := reads_table reads_string not_isText_null .umbrellaPaths }]

theorem parts_apart : RecordPart.Apart parts where
  keys := by
    have names : ["install_name", "dynamic_library", "extra", "exclude", "umbrella"].Nodup := by
      decide
    exact names
  get_set := by simp [parts, listsPart]
  get_set_of_ne := by simp [parts, listsPart]
  ext a b same := by
    simp only [parts, listsPart, List.forall_mem_cons] at same
    obtain ⟨installName, plainDylib, extra, exclude, umbrella, -⟩ := same
    cases a
    cases b
    congr

theorem ofJson_eq_ok_iff (v : Value) (c : Config) : ofJson v = .ok c ↔ IsSettings c v :=
  RecordPart.reads_record parts_apart .config empty v c

/-! ## Written settings -/

section Written

variable {α : Type} {is : α → Value → Prop} {item : α → Value}

theorem get?_classMembers {v : Visibility} (concrete : v ∈ Visibility.concrete)
    (t : ByClass (Option α)) :
    (Value.object (classMembers item t)).get? v.name = (find t v).map item := by
  obtain ⟨pub, priv, proj⟩ := t
  cases v with
  | pub | priv | proj => cases pub <;> cases priv <;> cases proj <;> rfl
  | unspecified => exact absurd concrete (by decide)

/-- A written table has what is there under the names of the classes, and nothing else. -/
theorem isTable_classMembers (written : ∀ a, is a (item a)) (t : ByClass (Option α)) :
    IsTable is t (.object (classMembers item t)) := by
  refine .object (List.forall_mem_map.mpr fun m mem => ?_) (List.forall_mem_map.mpr ?_)
  · obtain ⟨e, present, rfl⟩ := List.mem_map.mp mem
    rw [CommandLine.present_eq, List.mem_filterMap] at present
    obtain ⟨v, concrete, found⟩ := present
    obtain ⟨a, -, rfl⟩ := Option.map_eq_some_iff.mp found
    rw [List.map_map]
    exact List.mem_map_of_mem (f := Visibility.name) concrete
  · intro v concrete
    dsimp only
    rw [get?_classMembers concrete]
    cases find t v with
    | none => exact .absent
    | some a => exact .value (.value (written a))

theorem exact_classMembers (each : ∀ a, (item a).Exact) (t : ByClass (Option α)) :
    (Value.object (classMembers item t)).Exact :=
  .object (List.forall_mem_map.mpr fun e _ => each e.2)

end Written

theorem isList_strings (ss : List String) : IsList IsText ss (strings ss) := by
  refine .list ?_
  rw [List.forall₂_map_right_iff, List.forall₂_same]
  exact fun s _ => rfl

theorem exact_strings (ss : List String) : (strings ss).Exact :=
  .list (List.forall_mem_map.mpr fun s _ => .string s)

theorem isSettings_toJson (c : Config) : IsSettings c c.toJson := by
  obtain ⟨installName, plainDylib, extra, exclude, umbrella⟩ := c
  have lists := isTable_classMembers isList_strings
  have written (s : String) : IsText s (.string s) := rfl
  have paths := isTable_classMembers written
  refine .object ?_ ?_
  · cases installName <;> simp
  · simp only [List.forall_mem_cons]
    refine ⟨?_, ?_, ?_, ?_, ?_, nofun⟩
    · cases installName with
      | none => exact .absent
      | some n => exact .value (.value rfl)
    · cases installName <;> exact .value rfl
    · cases installName <;> exact .value (lists extra)
    · cases installName <;> exact .value (lists exclude)
    · cases installName <;> exact .value (paths umbrella)

theorem exact_toJson (c : Config) : c.toJson.Exact := by
  refine .object (List.forall_mem_append.mpr ⟨?_, ?_⟩)
  · cases c.installName with
    | none => nofun
    | some n => exact List.forall_mem_singleton.mpr (.string n)
  · simp only [List.forall_mem_cons]
    exact ⟨.bool _, exact_classMembers exact_strings _, exact_classMembers exact_strings _,
      exact_classMembers .string _, nofun⟩

/-- Written settings are read back as they were, from their value and from its text in either
layout: what is not there stays away, and an empty list stays a list. A value is accepted exactly if
it holds settings, and the settings that are read are those that it holds. So an object is accepted
if and only if it has no unknown key, at the top or in a table for the classes, and every field is
absent or has its form. -/
theorem written_and_read_exactly :
    (∀ c : Config, ofJson c.toJson = .ok c ∧
      Value.ofText c.toJson.compact.toList = .ok c.toJson ∧
      Value.ofText c.toJson.pretty.toList = .ok c.toJson) ∧
    ∀ (v : Value) (c : Config), ofJson v = .ok c ↔ IsSettings c v := by
  refine ⟨fun c => ⟨?_, ?_, ?_⟩, ofJson_eq_ok_iff⟩
  · exact (ofJson_eq_ok_iff c.toJson c).mpr (isSettings_toJson c)
  · exact (exact_toJson c).ofText_compact
  · exact (exact_toJson c).ofText_pretty

/-- A table that is written as a list, and one with a null entry. -/
example : ofJson (.object
    [("extra", .list [.list [.string "a.h"], .null, .list []]),
      ("umbrella", .object [("public", .null)])]) =
      .ok { empty with extra := ⟨some ["a.h"], none, some []⟩ } := rfl

end LibraryHeaders.Config
