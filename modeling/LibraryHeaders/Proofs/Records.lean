import LibraryHeaders.Datum
import LibraryHeaders.Proofs.Conservation
import Mathlib.Data.List.Forall2
import Mathlib.Data.List.Nodup

/-!
# Records in JSON values

A record is an object whose keys name its fields, or a list that has the fields in their places.
`HasFields` says this of a value, with the form of what may stand under each key; a reader `Reads` a
form if it accepts just the values of that form and gets from each what it says.

The parts of a record do not disturb one another (`Apart`). So what is read for a part depends on
nothing but the value under its key, wherever that value stands among the members. A list stands for
the table of its items under the keys in their order.
-/

namespace LibraryHeaders

namespace Json.Value

/-! ## Forms -/

def IsText (s : String) (v : Value) : Prop := v = .string s

def IsFlag (b : Bool) (v : Value) : Prop := v = .bool b

section Forms

variable {α : Type} (is : α → Value → Prop)

inductive IsList : List α → Value → Prop where
  | list {as : List α} {vs : List Value} (each : List.Forall₂ is as vs) : IsList as (.list vs)

/-- Null stands for nothing. -/
inductive IsOptional : Option α → Value → Prop where
  | null : IsOptional none .null
  | value {a : α} {v : Value} (form : is a v) : IsOptional (some a) v

/-- Where there is no value the default counts. -/
inductive OrDefault (default : α) : α → Option Value → Prop where
  | absent : OrDefault default default none
  | value {a : α} {v : Value} (form : is a v) : OrDefault default a (some v)

variable {is} {default a : α}

theorem orDefault_none_iff : OrDefault is default a none ↔ a = default := by
  constructor
  · rintro ⟨⟩
    rfl
  · rintro rfl
    exact .absent

theorem orDefault_some_iff {v : Value} : OrDefault is default a (some v) ↔ is a v := by
  constructor
  · rintro (_ | form)
    exact form
  · exact .value

end Forms

/-- A key and what may stand under it. -/
abbrev FieldForm := String × (Option Value → Prop)

/-- An object that has no keys but those of the fields, or a list that has no more items than there
are fields. What stands under the key of a field, or in its place, is as told. -/
inductive HasFields (fields : List FieldForm) : Value → Prop where
  | object {ms : List (String × Value)} (known : ∀ k ∈ ms.map (·.1), k ∈ fields.map (·.1))
      (each : ∀ field ∈ fields, field.2 ((Value.object ms).get? field.1)) :
      HasFields fields (.object ms)
  | list {vs : List Value} (short : vs.length ≤ fields.length)
      (each : ∀ (i : Nat) (field : FieldForm), fields[i]? = some field → field.2 vs[i]?) :
      HasFields fields (.list vs)

theorem hasFields_object_iff {fields : List FieldForm} {ms : List (String × Value)} :
    HasFields fields (.object ms) ↔ (∀ k ∈ ms.map (·.1), k ∈ fields.map (·.1)) ∧
      ∀ field ∈ fields, field.2 ((Value.object ms).get? field.1) := by
  constructor
  · rintro ⟨known, each⟩
    exact ⟨known, each⟩
  · rintro ⟨known, each⟩
    exact .object known each

theorem hasFields_list_iff {fields : List FieldForm} {vs : List Value} :
    HasFields fields (.list vs) ↔ vs.length ≤ fields.length ∧
      ∀ (i : Nat) (field : FieldForm), fields[i]? = some field → field.2 vs[i]? := by
  constructor
  · rintro (_ | ⟨short, each⟩)
    exact ⟨short, each⟩
  · rintro ⟨short, each⟩
    exact .list short each

theorem get?_cons (k key : String) (v : Value) (ms : List (String × Value)) :
    (Value.object ((k, v) :: ms)).get? key =
      ((Value.object ms).get? key).or (if k = key then some v else none) := by
  rw [get?, get?, List.reverse_cons, List.find?_append]
  cases ms.reverse.find? (·.1 == key) with
  | some m => rfl
  | none => by_cases same : k = key <;> simp [same]

end Json.Value

namespace Datum

open Json (Value)
open Json.Value

/-! ## The members of an object -/

section Members

variable {ds : List (String × Datum)} {k key : String} {d : Datum}

theorem lookup_cons_eq :
    ((k, d) :: ds).lookup key = if k = key then some d else ds.lookup key := by
  rw [List.lookup_cons]
  by_cases same : k = key
  · rw [if_pos same, beq_iff_eq.mpr same.symm]
  · rw [if_neg same, beq_eq_false_iff_ne.mpr (Ne.symm same)]

theorem lookup_eq_none_of_notMem (absent : key ∉ ds.map (·.1)) : ds.lookup key = none := by
  refine List.lookup_eq_none_iff.mpr fun m mem => bne_iff_ne.mpr ?_
  rintro rfl
  exact absent (List.mem_map_of_mem mem)

theorem mem_keys_insertMember_iff :
    key ∈ (insertMember k d ds).map (·.1) ↔ key = k ∨ key ∈ ds.map (·.1) := by
  induction ds with
  | nil => simp [insertMember]
  | cons m ds ih =>
    obtain ⟨k', d'⟩ := m
    rw [insertMember]
    split
    · rename_i same
      subst same
      simp
    · split
      · simp
      · rw [List.map_cons, List.mem_cons, ih, List.map_cons, List.mem_cons]
        exact or_left_comm

theorem insertMember_sorted (sorted : (ds.map (·.1)).Pairwise (· < ·)) :
    ((insertMember k d ds).map (·.1)).Pairwise (· < ·) := by
  induction ds with
  | nil => exact List.pairwise_singleton _ _
  | cons m ds ih =>
    obtain ⟨k', d'⟩ := m
    obtain ⟨first, others⟩ := List.pairwise_cons.mp sorted
    rw [insertMember]
    split
    · rename_i same
      subst same
      exact sorted
    · rename_i other
      split
      · rename_i before
        refine List.pairwise_cons.mpr ⟨List.forall_mem_cons.mpr ⟨before, ?_⟩, sorted⟩
        exact fun key mem => String.lt_trans before (first key mem)
      · rename_i notBefore
        have behind : k' < k := Std.lt_of_le_of_ne (String.not_lt.mp notBefore) (Ne.symm other)
        refine List.pairwise_cons.mpr ⟨fun key mem => ?_, ih others⟩
        rcases mem_keys_insertMember_iff.mp mem with rfl | mem
        · exact behind
        · exact first key mem

theorem lookup_insertMember :
    (insertMember k d ds).lookup key = if k = key then some d else ds.lookup key := by
  induction ds with
  | nil => exact lookup_cons_eq
  | cons m ds ih =>
    obtain ⟨k', d'⟩ := m
    rw [insertMember]
    split
    · rename_i same
      subst same
      rw [lookup_cons_eq, lookup_cons_eq]
      by_cases here : k = key <;> simp [here]
    · rename_i other
      split
      · exact lookup_cons_eq
      · rw [lookup_cons_eq, ih, lookup_cons_eq]
        by_cases here : k = key
        · subst here
          rw [if_neg (Ne.symm other)]
          simp
        · simp [here]

variable {ms : List (String × Value)} {done : List (String × Datum)}

theorem mem_keys_ofJsonMembers_iff :
    key ∈ (ofJsonMembers done ms).map (·.1) ↔ key ∈ ms.map (·.1) ∨ key ∈ done.map (·.1) := by
  induction ms generalizing done with
  | nil => simp [ofJsonMembers]
  | cons m ms ih =>
    rw [ofJsonMembers, ih, mem_keys_insertMember_iff, List.map_cons, List.mem_cons, or_assoc]
    exact or_left_comm

theorem ofJsonMembers_sorted (sorted : (done.map (·.1)).Pairwise (· < ·)) :
    ((ofJsonMembers done ms).map (·.1)).Pairwise (· < ·) := by
  induction ms generalizing done with
  | nil => exact sorted
  | cons m ms ih =>
    rw [ofJsonMembers]
    exact ih (insertMember_sorted sorted)

/-- Of the members with one key the last one counts. -/
theorem lookup_ofJsonMembers : (ofJsonMembers done ms).lookup key =
    (((Value.object ms).get? key).map ofJson).or (done.lookup key) := by
  induction ms generalizing done with
  | nil => rfl
  | cons m ms ih =>
    obtain ⟨k, v⟩ := m
    rw [ofJsonMembers, ih, lookup_insertMember, get?_cons]
    cases (Value.object ms).get? key with
    | some _ => rfl
    | none => by_cases here : k = key <;> simp [here]

theorem ofJsonItems_eq (vs : List Value) : ofJsonItems vs = vs.map ofJson := by
  induction vs with
  | nil => rfl
  | cons v vs ih => rw [ofJsonItems, ih, List.map_cons]

end Members

/-! ## Readers -/

/-- The reader accepts the values of the form, and gets from each what it says. -/
def Reads {α : Type} (read : Reader α) (is : α → Value → Prop) : Prop :=
  ∀ v a, read (ofJson v) = .ok a ↔ is a v

section Readers

variable {α : Type} {read : Reader α} {is : α → Value → Prop}

theorem map_eq_ok {β : Type} {x : Except Mismatch α} {f : α → β} {b : β} :
    x.map f = .ok b ↔ ∃ a, x = .ok a ∧ f a = b := by
  constructor
  · intro ok
    cases x with
    | error m => cases ok
    | ok a => exact ⟨a, rfl, Except.ok.inj ok⟩
  · rintro ⟨a, rfl, rfl⟩
    rfl

theorem mapM_eq_ok_iff (reads : Reads read is) {vs : List Value} {as : List α} :
    (vs.map ofJson).mapM read = .ok as ↔ List.Forall₂ is as vs := by
  induction vs generalizing as with
  | nil =>
    rw [List.map_nil, List.mapM_nil, List.forall₂_nil_right_iff]
    exact ⟨fun same => (Except.ok.inj same).symm, congrArg Except.ok ∘ Eq.symm⟩
  | cons v vs ih =>
    rw [List.map_cons, List.mapM_cons, bind_eq_ok, List.forall₂_cons_right_iff]
    constructor
    · rintro ⟨a, here, rest⟩
      obtain ⟨as, others, ⟨⟩⟩ := bind_eq_ok.mp rest
      exact ⟨a, as, (reads v a).mp here, ih.mp others, rfl⟩
    · rintro ⟨a, as, here, others, rfl⟩
      exact ⟨a, (reads v a).mpr here, bind_eq_ok.mpr ⟨as, ih.mpr others, rfl⟩⟩

theorem reads_string : Reads readString IsText := by
  intro v s
  cases v with
  | string s' => simp [ofJson, readString, IsText]
  | number n => cases n <;> exact ⟨nofun, nofun⟩
  | null | bool | list | object => exact ⟨nofun, nofun⟩

theorem reads_bool : Reads readBool IsFlag := by
  intro v b
  cases v with
  | bool b' => simp [ofJson, readBool, IsFlag]
  | number n => cases n <;> exact ⟨nofun, nofun⟩
  | null | string | list | object => exact ⟨nofun, nofun⟩

theorem Reads.list (reads : Reads read is) : Reads (readList read) (IsList is) := by
  intro v as
  constructor
  · intro ok
    cases v with
    | list vs =>
      rw [ofJson, ofJsonItems_eq] at ok
      exact .list ((mapM_eq_ok_iff reads).mp ok)
    | number n => cases n <;> cases ok
    | null | bool | string | object => cases ok
  · rintro ⟨each⟩
    rw [ofJson, ofJsonItems_eq]
    exact (mapM_eq_ok_iff reads).mpr each

/-- A form that null has not may be left out by null. -/
theorem Reads.option (reads : Reads read is) (notNull : ∀ a, ¬is a .null) :
    Reads (readOption read) (IsOptional is) := by
  have read_of_ne_null {v : Value} (ne : v ≠ .null) :
      readOption read (ofJson v) = (read (ofJson v)).map some := by
    cases v with
    | null => exact absurd rfl ne
    | number n => cases n <;> rfl
    | bool | string | list | object => rfl
  intro v a
  constructor
  · intro ok
    by_cases null : v = .null
    · subst null
      cases ok
      exact .null
    · rw [read_of_ne_null null] at ok
      obtain ⟨b, here, rfl⟩ := map_eq_ok.mp ok
      exact .value ((reads v b).mp here)
  · intro form
    cases form with
    | null => rfl
    | @value a _ form =>
      have ne : v ≠ .null := by
        rintro rfl
        exact notNull a form
      rw [read_of_ne_null ne]
      exact map_eq_ok.mpr ⟨a, (reads v a).mpr form, rfl⟩

end Readers

/-! ## Parts of a record -/

/-- A part of a record, with the key and the reader of its values. -/
structure RecordPart (α : Type) where
  key : String
  Item : Type
  read : Reader Item
  get : α → Item
  set : α → Item → α
  is : Item → Value → Prop
  reads : Reads read is

namespace RecordPart

variable {α : Type} (p : RecordPart α)

def field : String × (α → Datum → Except Mismatch α) :=
  (p.key, fun a d => (p.read d).map (p.set a))

/-- What may stand under the key of the part where the record is read as `a`. -/
def form (default a : α) : FieldForm := (p.key, OrDefault p.is (p.get default) (p.get a))

/-- The part of `b` is what the datum says, and without one that of `a`. -/
def Found (a : α) (d? : Option Datum) (b : α) : Prop :=
  match d? with
  | none => p.get b = p.get a
  | some d => p.read d = .ok (p.get b)

/-- The parts make up the record, each can be set alone, and no two have one key. -/
structure Apart (parts : List (RecordPart α)) : Prop where
  keys : (parts.map key).Nodup
  get_set : ∀ p ∈ parts, ∀ a x, p.get (p.set a x) = x
  get_set_of_ne : ∀ p ∈ parts, ∀ q ∈ parts, q.key ≠ p.key → ∀ a x, q.get (p.set a x) = q.get a
  ext : ∀ a b, (∀ p ∈ parts, p.get a = p.get b) → a = b

variable {p} {q : RecordPart α} {parts : List (RecordPart α)} {a b default : α}

theorem found_congr {a' : α} (same : p.get a = p.get a') (d? : Option Datum) :
    p.Found a d? b ↔ p.Found a' d? b := by
  cases d? with
  | none => rw [Found, Found, same]
  | some d => exact Iff.rfl

theorem found_ofJson_iff (p : RecordPart α) (a b : α) (v? : Option Value) :
    p.Found a (v?.map ofJson) b ↔ OrDefault p.is (p.get a) (p.get b) v? := by
  cases v? with
  | none => exact orDefault_none_iff.symm
  | some v => exact (p.reads v _).trans orDefault_some_iff.symm

theorem find?_field (apart : Apart parts) (mem : p ∈ parts) :
    (parts.map field).find? (·.1 == p.key) = some p.field := by
  cases found : (parts.map field).find? (·.1 == p.key) with
  | none =>
    have differs := List.find?_eq_none.mp found p.field (List.mem_map_of_mem mem)
    exact absurd (beq_self_eq_true p.key) differs
  | some f =>
    obtain ⟨q, qmem, rfl⟩ := List.mem_map.mp (List.mem_of_find?_eq_some found)
    have same : q.key = p.key := by simpa [field] using List.find?_some found
    rw [List.inj_on_of_nodup_map apart.keys qmem mem same]

theorem find?_eq_none_of_notMem {k : String} (unknown : k ∉ parts.map key) :
    (parts.map field).find? (·.1 == k) = none := by
  rw [List.find?_eq_none, List.forall_mem_map]
  intro p mem same
  exact unknown (List.mem_map.mpr ⟨p, mem, beq_iff_eq.mp same⟩)

/-- What is found with one more member in front: the part under its key is read from it, and the
members behind leave that part as it is. -/
theorem found_cons_iff (apart : Apart parts) (mem : p ∈ parts) {d : Datum}
    {ds : List (String × Datum)} (fresh : p.key ∉ ds.map (·.1)) :
    (∀ q ∈ parts, q.Found a (((p.key, d) :: ds).lookup q.key) b) ↔
      ∃ x, p.read d = .ok x ∧ ∀ q ∈ parts, q.Found (p.set a x) (ds.lookup q.key) b := by
  have gone : ds.lookup p.key = none := lookup_eq_none_of_notMem fresh
  have here : p.Found a (((p.key, d) :: ds).lookup p.key) b ↔ p.read d = .ok (p.get b) := by
    rw [lookup_cons_eq, if_pos rfl]
    rfl
  have elsewhere (q : RecordPart α) (qmem : q ∈ parts) (other : q.key ≠ p.key) (x : p.Item) :
      q.Found a (((p.key, d) :: ds).lookup q.key) b ↔
        q.Found (p.set a x) (ds.lookup q.key) b := by
    rw [lookup_cons_eq, if_neg (Ne.symm other)]
    exact found_congr (apart.get_set_of_ne p mem q qmem other a x).symm _
  constructor
  · intro found
    refine ⟨p.get b, here.mp (found p mem), fun q qmem => ?_⟩
    by_cases same : q.key = p.key
    · obtain rfl := List.inj_on_of_nodup_map apart.keys qmem mem same
      rw [gone]
      exact (apart.get_set q mem a _).symm
    · exact (elsewhere q qmem same _).mp (found q qmem)
  · rintro ⟨x, read, found⟩ q qmem
    by_cases same : q.key = p.key
    · obtain rfl := List.inj_on_of_nodup_map apart.keys qmem mem same
      have kept := found q mem
      rw [gone] at kept
      exact here.mpr (read.trans (congrArg Except.ok (kept.trans (apart.get_set q mem a x)).symm))
    · exact (elsewhere q qmem same x).mpr (found q qmem)

theorem readMembers_eq_ok_iff (apart : Apart parts) {ds : List (String × Datum)}
    (distinct : (ds.map (·.1)).Nodup) :
    readMembers (parts.map field) a ds = .ok b ↔ (∀ k ∈ ds.map (·.1), k ∈ parts.map key) ∧
      ∀ p ∈ parts, p.Found a (ds.lookup p.key) b := by
  -- the record so far is what the parts without a member keep
  induction ds generalizing a with
  | nil =>
    constructor
    · rintro ⟨⟩
      exact ⟨nofun, fun p _ => rfl⟩
    · rintro ⟨-, found⟩
      exact congrArg Except.ok (apart.ext a b fun p mem => (found p mem).symm)
  | cons m ds ih =>
    obtain ⟨k, d⟩ := m
    obtain ⟨fresh, apart'⟩ := List.nodup_cons.mp distinct
    rw [List.map_cons, List.forall_mem_cons]
    by_cases known : k ∈ parts.map key
    · obtain ⟨p, mem, rfl⟩ := List.mem_map.mp known
      rw [readMembers, find?_field apart mem]
      change (p.read d).map (p.set a) >>= _ = _ ↔ _
      rw [bind_eq_ok]
      constructor
      · rintro ⟨_, ok, rest⟩
        obtain ⟨x, here, rfl⟩ := map_eq_ok.mp ok
        obtain ⟨others, behind⟩ := (ih apart').mp rest
        exact ⟨⟨known, others⟩, (found_cons_iff apart mem fresh).mpr ⟨x, here, behind⟩⟩
      · rintro ⟨⟨-, others⟩, found⟩
        obtain ⟨x, here, behind⟩ := (found_cons_iff apart mem fresh).mp found
        exact ⟨_, map_eq_ok.mpr ⟨x, here, rfl⟩, (ih apart').mpr ⟨others, behind⟩⟩
    · rw [readMembers, find?_eq_none_of_notMem known]
      exact iff_of_false nofun fun found => known found.1.1

/-! ## Items in their places -/

/-- A list stands for the table with its items under the keys of the parts, in their order. -/
theorem readPlaces_eq (apart : Apart parts) {these : List (RecordPart α)}
    (sub : ∀ p ∈ these, p ∈ parts) (a : α) (ds : List Datum) :
    readPlaces (these.map field) a ds =
      (readMembers (parts.map field) a ((these.map key).zip ds)).map
        fun b => (b, ds.drop these.length) := by
  induction these generalizing a ds with
  | nil => cases ds <;> rfl
  | cons p these ih =>
    cases ds with
    | nil => rfl
    | cons d ds =>
      obtain ⟨mem, others⟩ := List.forall_mem_cons.mp sub
      rw [List.map_cons, List.map_cons, List.zip_cons_cons, readMembers, find?_field apart mem,
        readPlaces]
      dsimp only
      cases p.field.2 a d with
      | error m => rfl
      | ok b => exact ih others b ds

theorem keys_zip_sublist (ks : List String) (ds : List Datum) :
    ((ks.zip ds).map (·.1)).Sublist ks := by
  induction ks generalizing ds with
  | nil => exact .slnil
  | cons k ks ih =>
    cases ds with
    | nil => exact List.nil_sublist _
    | cons d ds => exact (ih ds).cons_cons k

/-- The item under a key is the one in the place of the key. -/
theorem lookup_zip {ks : List String} (distinct : ks.Nodup) {i : Nat} {k : String}
    (place : ks[i]? = some k) (ds : List Datum) : (ks.zip ds).lookup k = ds[i]? := by
  induction ks generalizing i ds with
  | nil => cases place
  | cons k' ks ih =>
    obtain ⟨fresh, distinct'⟩ := List.nodup_cons.mp distinct
    cases ds with
    | nil => rfl
    | cons d ds =>
      rw [List.zip_cons_cons, lookup_cons_eq]
      cases i with
      | zero =>
        cases place
        exact if_pos rfl
      | succ i =>
        rw [List.getElem?_cons_succ] at place
        have other : k' ≠ k := by
          rintro rfl
          exact fresh (List.mem_of_getElem? place)
        rw [if_neg other, List.getElem?_cons_succ]
        exact ih distinct' place ds

/-! ## Reading a record -/

theorem keys_form (parts : List (RecordPart α)) (default a : α) :
    (parts.map fun p => p.form default a).map (·.1) = parts.map key := by
  rw [List.map_map]
  rfl

theorem readMembers_ofJson_iff (apart : Apart parts) {ms : List (String × Value)} :
    readMembers (parts.map field) default (ofJsonMembers [] ms) = .ok a ↔
      HasFields (parts.map fun p => p.form default a) (.object ms) := by
  have same (k : String) : k ∈ (ofJsonMembers [] ms).map (·.1) ↔ k ∈ ms.map (·.1) := by
    rw [mem_keys_ofJsonMembers_iff, List.map_nil, or_iff_left List.not_mem_nil]
  have found (p : RecordPart α) : p.Found default ((ofJsonMembers [] ms).lookup p.key) a ↔
      (p.form default a).2 ((Value.object ms).get? p.key) := by
    rw [lookup_ofJsonMembers, List.lookup_nil, Option.or_none]
    exact found_ofJson_iff p default a _
  have sorted : ((ofJsonMembers [] ms).map (·.1)).Pairwise (· < ·) := ofJsonMembers_sorted .nil
  rw [readMembers_eq_ok_iff apart sorted.nodup, hasFields_object_iff, keys_form]
  refine and_congr (forall_congr' fun k => imp_congr_left (same k)) ?_
  rw [List.forall_mem_map]
  exact forall₂_congr fun p _ => found p

theorem readPlaces_ofJson_iff (apart : Apart parts) {vs : List Value} {rest : List Datum} :
    readPlaces (parts.map field) default (vs.map ofJson) = .ok (a, rest) ↔
      rest = (vs.map ofJson).drop parts.length ∧
        ∀ (i : Nat) (p : RecordPart α), parts[i]? = some p → (p.form default a).2 vs[i]? := by
  have sublist := keys_zip_sublist (parts.map key) (vs.map ofJson)
  have table := readMembers_eq_ok_iff apart (a := default) (b := a) (sublist.nodup apart.keys)
  have found : (∀ p ∈ parts, p.Found default
        (((parts.map key).zip (vs.map ofJson)).lookup p.key) a) ↔
      ∀ (i : Nat) (p : RecordPart α), parts[i]? = some p → (p.form default a).2 vs[i]? := by
    have here {i : Nat} {p : RecordPart α} (place : parts[i]? = some p) :
        p.Found default (((parts.map key).zip (vs.map ofJson)).lookup p.key) a ↔
          (p.form default a).2 vs[i]? := by
      have atKey : (parts.map key)[i]? = some p.key := by rw [List.getElem?_map, place]; rfl
      rw [lookup_zip apart.keys atKey, List.getElem?_map]
      exact found_ofJson_iff p default a _
    constructor
    · intro found i p place
      exact (here place).mp (found p (List.mem_of_getElem? place))
    · intro found p mem
      obtain ⟨i, place⟩ := List.mem_iff_getElem?.mp mem
      exact (here place).mpr (found i p place)
  rw [and_iff_right fun k mem => sublist.subset mem, found] at table
  rw [readPlaces_eq apart fun p mem => mem, ← table]
  cases readMembers (parts.map field) default ((parts.map key).zip (vs.map ofJson)) with
  | error m => exact iff_of_false nofun fun both => nomatch both.2
  | ok b =>
    constructor
    · rintro ⟨⟩
      exact ⟨rfl, rfl⟩
    · rintro ⟨rfl, ⟨⟩⟩
      rfl

/-- A record whose parts are set apart is read from the values that have its fields. -/
theorem reads_record (apart : Apart parts) (wanted : Wanted) (default : α) :
    Reads (readRecord .exact wanted (parts.map field) default)
      fun a => HasFields (parts.map fun p => p.form default a) := by
  intro v a
  cases v with
  | object ms => exact readMembers_ofJson_iff apart
  | list vs =>
    dsimp only
    rw [ofJson, ofJsonItems_eq, readRecord, bind_eq_ok, hasFields_list_iff, List.length_map,
      List.length_map]
    have short : ((vs.map ofJson).drop parts.length).isEmpty = true ↔ vs.length ≤ parts.length := by
      rw [List.isEmpty_iff, List.drop_eq_nil_iff, List.length_map]
    constructor
    · rintro ⟨⟨b, rest⟩, places, ok⟩
      obtain ⟨rfl, found⟩ := (readPlaces_ofJson_iff apart).mp places
      dsimp only at ok
      split at ok
      · cases ok
      · rename_i whole
        cases ok
        refine ⟨short.mp (by simpa using whole), fun i f place => ?_⟩
        rw [List.getElem?_map] at place
        obtain ⟨p, here, rfl⟩ := Option.map_eq_some_iff.mp place
        exact found i p here
    · rintro ⟨few, each⟩
      refine ⟨(a, (vs.map ofJson).drop parts.length),
        (readPlaces_ofJson_iff apart).mpr ⟨rfl, fun i p place => ?_⟩, ?_⟩
      · exact each i _ (by rw [List.getElem?_map, place]; rfl)
      · dsimp only
        rw [if_neg (by simpa using short.mpr few)]
        rfl
  | number n => cases n <;> exact ⟨nofun, nofun⟩
  | null | bool | string => exact ⟨nofun, nofun⟩

end RecordPart

end Datum

end LibraryHeaders
