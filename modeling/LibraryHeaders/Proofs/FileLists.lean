import LibraryHeaders.FileList
import LibraryHeaders.Proofs.Conservation
import LibraryHeaders.Proofs.Json.Documents
import LibraryHeaders.Proofs.Utf8

/-!
# The form of file lists

A text holds a file list if it is a document of a certain form: `Holds` says of which, with the
version and the entries that the document gives. The reader accepts exactly the texts that hold a
file list of a supported version, and it puts their entries behind the headers that are there.
Whether a path is empty is asked last, entry by entry, so the entries before an empty path are kept.
-/

namespace LibraryHeaders.FileList

open Json

/-! ## Forms -/

/-- The values that stand under a key, in order. -/
def under (key : String) : List Draft.Member → List Draft
  | [] => []
  | (.ok k, d) :: ms => if k = key then d :: under key ms else under key ms
  | (.error _, _) :: ms => under key ms

/-- A record of two fields: an object whose keys are all texts, each field one of them just once, or
the list of the two values. -/
inductive IsRecord (first second : String) (x y : Draft) : Draft → Prop where
  | object {ms : List Draft.Member} (keys : ∀ m ∈ ms, ∃ k, m.1 = .ok k)
      (atFirst : under first ms = [x]) (atSecond : under second ms = [y]) :
      IsRecord first second x y (.object ms none)
  | list : IsRecord first second x y (.list [x, y] none)

/-- The name of a class that headers can carry, or an object with the name as its one key and null
as the value. -/
inductive IsClass (v : Visibility) : Draft → Prop where
  | word (concrete : v ∈ Visibility.concrete) : IsClass v (.string (.ok v.name))
  | object (concrete : v ∈ Visibility.concrete) : IsClass v (.object [(.ok v.name, .null)] none)

/-- A record of a class and a path. -/
def IsEntry (e : Visibility × String) (d : Draft) : Prop :=
  ∃ x, IsRecord "type" "path" x (.string (.ok e.2)) d ∧ IsClass e.1 x

/-- A record of a version and a list of entries. -/
def IsFileList (version : String) (entries : List (Visibility × String)) (d : Draft) : Prop :=
  ∃ items, IsRecord "version" "headers" (.string (.ok version)) (.list items none) d ∧
    List.Forall₂ IsEntry entries items

/-- The text is a JSON document with a file list in it. -/
def Holds (s : List Char) (version : String) (entries : List (Visibility × String)) : Prop :=
  ∃ d : Draft, d.Written s ∧ IsFileList version entries d

/-- The header that stands for an entry. -/
def headerOf (e : Visibility × String) : Header := .listed e.1 (.ofString e.2)

/-! ## Records -/

section Record

variable {α β : Type} {read : Draft → Except ListFault α} {readFirst : Draft → Except ListFault α}
  {readSecond : Draft → Except ListFault β} {first second : String} {wanted : Wanted}

/-- What is known of a field after the values under its key. -/
inductive Fills (read : Draft → Except ListFault α) : Option α → List Draft → Option α → Prop where
  | kept (a : Option α) : Fills read a [] a
  | filled {d : Draft} {v : α} (ok : read d = .ok v) : Fills read none [d] (some v)

theorem fills_nil {a a' : Option α} : Fills read a [] a' ↔ a = a' := by
  constructor
  · intro fills
    cases fills
    rfl
  · rintro rfl
    exact .kept a

theorem fills_cons {a a' : Option α} {d : Draft} {ds : List Draft} :
    Fills read a (d :: ds) a' ↔ a = none ∧ ∃ v, read d = .ok v ∧ Fills read (some v) ds a' := by
  constructor
  · intro fills
    cases fills with
    | filled ok => exact ⟨rfl, _, ok, .kept _⟩
  · rintro ⟨rfl, v, ok, fills⟩
    cases fills
    exact .filled ok

/-- A field is read from a value under its key only if it is not known yet. -/
theorem fill_eq_ok_iff {γ : Type} {a : Option α} {d : Draft} {f : ListFault}
    (next : Option α → Except ListFault γ) {r : γ} :
    (if a.isSome then .error f else do next (some (← read d))) = .ok r ↔
      a = none ∧ ∃ v, read d = .ok v ∧ next (some v) = .ok r := by
  cases a with
  | some v => simp
  | none =>
    rw [Option.isSome_none, if_neg Bool.false_ne_true, bind_eq_ok]
    exact (and_iff_right rfl).symm

theorem readFields_eq_ok_iff (apart : first ≠ second) {ms : List Draft.Member}
    (whole : ∀ m ∈ ms, m.2.skipFault? = none) {a a' : Option α} {b b' : Option β} :
    readFields first second readFirst readSecond a b ms = .ok (a', b') ↔
      (∀ m ∈ ms, ∃ k, m.1 = .ok k) ∧ Fills readFirst a (under first ms) a' ∧
        Fills readSecond b (under second ms) b' := by
  induction ms generalizing a b with
  | nil => simp [readFields, under, fills_nil]
  | cons m ms ih =>
    obtain ⟨key, d⟩ := m
    obtain ⟨here, others⟩ := List.forall_mem_cons.mp whole
    rw [List.forall_mem_cons, readFields]
    cases key with
    | error f => simp [formed, Except.mapError, bind, Except.bind]
    | ok k =>
      have text : ∃ k', (Except.ok k : Except Fault String) = .ok k' := ⟨k, rfl⟩
      simp only [under, text, true_and]
      change (if k = first then _ else _) = _ ↔ _
      split
      · rename_i same
        subst same
        rw [if_neg apart, fills_cons,
          fill_eq_ok_iff (readFields k second readFirst readSecond · b ms)]
        simp only [ih others]
        constructor
        · rintro ⟨new, v, ok, keys, atFirst, atSecond⟩
          exact ⟨keys, ⟨new, v, ok, atFirst⟩, atSecond⟩
        · rintro ⟨keys, ⟨new, v, ok, atFirst⟩, atSecond⟩
          exact ⟨new, v, ok, keys, atFirst, atSecond⟩
      · split
        · rw [fills_cons, fill_eq_ok_iff (readFields first second readFirst readSecond a · ms)]
          simp only [ih others]
          constructor
          · rintro ⟨new, v, ok, keys, atFirst, atSecond⟩
            exact ⟨keys, atFirst, new, v, ok, atSecond⟩
          · rintro ⟨keys, atFirst, new, v, ok, atSecond⟩
            exact ⟨new, v, ok, keys, atFirst, atSecond⟩
        · have skipped : skip d = .ok () := by rw [skip, here]
          rw [skipped]
          exact ih others

theorem shortList_ne_ok {length : Nat} {cut : Option ListCut} {a : α} :
    shortList length wanted cut ≠ .ok a := by
  cases cut <;> exact nofun

theorem readPair_eq_ok_iff (apart : first ≠ second) {d : Draft} (whole : d.Whole) {a : α} {b : β} :
    readPair wanted first second readFirst readSecond d = .ok (a, b) ↔
      ∃ x y, IsRecord first second x y d ∧ readFirst x = .ok a ∧ readSecond y = .ok b := by
  constructor
  · intro ok
    unfold readPair at ok
    split at ok
    · rename_i ms cut
      obtain ⟨rfl, values⟩ := whole.object
      obtain ⟨⟨a?, b?⟩, fields, ok⟩ := bind_eq_ok.mp ok
      obtain ⟨keys, atFirst, atSecond⟩ :=
        (readFields_eq_ok_iff apart fun m mem => (values m mem).skipFault?).mp fields
      dsimp only at ok
      split at ok
      · cases ok
      · cases ok
      · cases ok
      · cases ok
        generalize firsts : under first ms = xs at atFirst
        generalize seconds : under second ms = ys at atSecond
        cases atFirst with
        | filled okFirst =>
          cases atSecond with
          | filled okSecond => exact ⟨_, _, .object keys firsts seconds, okFirst, okSecond⟩
    · exact absurd ok shortList_ne_ok
    · obtain ⟨_, _, ok⟩ := bind_eq_ok.mp ok
      exact absurd ok shortList_ne_ok
    · rename_i x y more cut
      obtain ⟨rfl, -⟩ := whole.list
      obtain ⟨_, okFirst, ok⟩ := bind_eq_ok.mp ok
      obtain ⟨_, okSecond, ok⟩ := bind_eq_ok.mp ok
      obtain ⟨_, ends, ok⟩ := bind_eq_ok.mp ok
      cases ok
      cases more with
      | nil => exact ⟨x, y, .list, okFirst, okSecond⟩
      | cons => cases ends
    · cases ok
  · rintro ⟨x, y, record, okFirst, okSecond⟩
    cases record with
    | @object ms keys atFirst atSecond =>
      obtain ⟨-, values⟩ := whole.object
      have fields : readFields first second readFirst readSecond none none ms =
          .ok (some a, some b) := by
        refine (readFields_eq_ok_iff apart fun m mem => (values m mem).skipFault?).mpr ⟨keys, ?_⟩
        rw [atFirst, atSecond]
        exact ⟨.filled okFirst, .filled okSecond⟩
      rw [readPair, fields]
      rfl
    | list =>
      rw [readPair, okFirst, okSecond]
      rfl

theorem mem_of_mem_under {key : String} {x : Draft} {ms : List Draft.Member}
    (mem : x ∈ under key ms) : (.ok key, x) ∈ ms := by
  induction ms with
  | nil => cases mem
  | cons m ms ih =>
    obtain ⟨k, d⟩ := m
    cases k with
    | error f => exact List.mem_cons_of_mem _ (ih mem)
    | ok k =>
      rw [under] at mem
      split at mem
      · rename_i same
        subst same
        rcases List.mem_cons.mp mem with rfl | later
        · exact List.mem_cons_self
        · exact List.mem_cons_of_mem _ (ih later)
      · exact List.mem_cons_of_mem _ (ih mem)

theorem IsRecord.whole_second {x y d : Draft} (record : IsRecord first second x y d)
    (whole : d.Whole) : y.Whole := by
  cases record with
  | object _ _ atSecond =>
    have mem := mem_of_mem_under (atSecond ▸ List.mem_singleton_self y)
    exact whole.object.2 _ mem
  | list => exact whole.list.2 y (by simp)

/-- A record is read from a draft that is not cut short. -/
theorem skipFault?_of_readPair {d : Draft} {p : α × β}
    (ok : readPair wanted first second readFirst readSecond d = .ok p) : d.skipFault? = none := by
  unfold readPair at ok
  split at ok
  · obtain ⟨_, -, ok⟩ := bind_eq_ok.mp ok
    dsimp only at ok
    split at ok
    · cases ok
    · cases ok
    · cases ok
    · rfl
  · exact absurd ok shortList_ne_ok
  · obtain ⟨_, _, ok⟩ := bind_eq_ok.mp ok
    exact absurd ok shortList_ne_ok
  · rename_i more cut
    obtain ⟨_, -, ok⟩ := bind_eq_ok.mp ok
    obtain ⟨_, -, ok⟩ := bind_eq_ok.mp ok
    obtain ⟨_, ends, -⟩ := bind_eq_ok.mp ok
    cases cut with
    | none => rfl
    | some c => cases more <;> cases ends
  · cases ok

end Record

/-! ## Reading a form -/

theorem readWord_eq_ok_iff {word : String} {v : Visibility} :
    readWord word = .ok v ↔ v ∈ Visibility.concrete ∧ v.name = word := by
  constructor
  · intro ok
    rw [readWord] at ok
    split at ok
    · rename_i found
      cases ok
      exact ⟨List.mem_of_find?_eq_some found, by simpa using List.find?_some found⟩
    · cases ok
  · rintro ⟨concrete, rfl⟩
    revert v
    decide

theorem formed_eq_ok_iff {α : Type} {r : Except Fault α} {a : α} :
    formed r = .ok a ↔ r = .ok a := by
  cases r with
  | error f =>
    constructor
    · rintro ⟨⟩
    · rintro ⟨⟩
  | ok b =>
    constructor
    · rintro ⟨⟩
      rfl
    · rintro ⟨⟩
      rfl

theorem readUnit_eq_ok_iff {d : Draft} {u : Unit} : readUnit d = .ok u ↔ d = .null := by
  constructor
  · intro ok
    unfold readUnit at ok
    split at ok
    · rfl
    · cases ok
  · rintro rfl
    rfl

theorem readClass_eq_ok_iff {d : Draft} {v : Visibility} :
    readClass d = .ok v ↔ IsClass v d := by
  constructor
  · intro ok
    unfold readClass at ok
    split at ok
    · obtain ⟨word, text, ok⟩ := bind_eq_ok.mp ok
      obtain ⟨concrete, rfl⟩ := readWord_eq_ok_iff.mp ok
      obtain rfl := formed_eq_ok_iff.mp text
      exact .word concrete
    · cases ok
    · cases ok
    · cases ok
    · cases ok
    · obtain ⟨word, text, ok⟩ := bind_eq_ok.mp ok
      obtain ⟨w, named, ok⟩ := bind_eq_ok.mp ok
      obtain ⟨_, null, ends⟩ := bind_eq_ok.mp ok
      obtain ⟨concrete, rfl⟩ := readWord_eq_ok_iff.mp named
      obtain rfl := formed_eq_ok_iff.mp text
      obtain rfl := readUnit_eq_ok_iff.mp null
      split at ends
      · cases ends
        exact .object concrete
      · cases ends
      · cases ends
    · cases ok
  · intro form
    cases form with
    | word concrete => exact readWord_eq_ok_iff.mpr ⟨concrete, rfl⟩
    | object concrete =>
      have named : readWord v.name = .ok v := readWord_eq_ok_iff.mpr ⟨concrete, rfl⟩
      change (readWord v.name >>= fun w => .ok w) = .ok v
      rw [named]
      rfl

theorem readString_eq_ok_iff {wanted : Wanted} {d : Draft} {s : String} :
    readString wanted d = .ok s ↔ d = .string (.ok s) := by
  constructor
  · intro ok
    unfold readString at ok
    split at ok
    · cases ok
      rfl
    · cases ok
  · rintro rfl
    rfl

theorem readPath_eq_ok_iff {d : Draft} {p : Path} :
    readPath d = .ok p ↔ ∃ s, d = .string (.ok s) ∧ p = .ofString s := by
  rw [readPath, bind_eq_ok]
  constructor
  · rintro ⟨s, ok, ⟨⟩⟩
    exact ⟨s, readString_eq_ok_iff.mp ok, rfl⟩
  · rintro ⟨s, rfl, rfl⟩
    exact ⟨s, rfl, rfl⟩

theorem readEntry_eq_ok_iff {d : Draft} (whole : d.Whole) {v : Visibility} {p : Path} :
    readEntry d = .ok (v, p) ↔ ∃ s, p = .ofString s ∧ IsEntry (v, s) d := by
  rw [readEntry, readPair_eq_ok_iff (by decide) whole]
  constructor
  · rintro ⟨x, y, record, named, path⟩
    obtain ⟨s, rfl, rfl⟩ := readPath_eq_ok_iff.mp path
    exact ⟨s, rfl, x, record, readClass_eq_ok_iff.mp named⟩
  · rintro ⟨s, rfl, x, record, named⟩
    exact ⟨x, _, record, readClass_eq_ok_iff.mpr named, rfl⟩

/-- The entry as it is read. -/
def entryOf (e : Visibility × String) : Visibility × Path := (e.1, .ofString e.2)

theorem mapM_readEntry_eq_ok_iff {items : List Draft} (whole : ∀ d ∈ items, d.Whole)
    {read : List (Visibility × Path)} :
    items.mapM readEntry = .ok read ↔
      ∃ entries, List.Forall₂ IsEntry entries items ∧ read = entries.map entryOf := by
  induction items generalizing read with
  | nil =>
    rw [List.mapM_nil]
    constructor
    · rintro ⟨⟩
      exact ⟨[], .nil, rfl⟩
    · rintro ⟨_, ⟨⟩, rfl⟩
      rfl
  | cons d items ih =>
    obtain ⟨here, others⟩ := List.forall_mem_cons.mp whole
    rw [List.mapM_cons, bind_eq_ok]
    constructor
    · rintro ⟨⟨v, p⟩, entry, ok⟩
      obtain ⟨_, rest, ⟨⟩⟩ := bind_eq_ok.mp ok
      obtain ⟨s, rfl, form⟩ := (readEntry_eq_ok_iff here).mp entry
      obtain ⟨entries, forms, rfl⟩ := (ih others).mp rest
      exact ⟨(v, s) :: entries, .cons form forms, rfl⟩
    · rintro ⟨_, forms, rfl⟩
      cases forms with
      | @cons e _ entries _ form forms =>
        refine ⟨entryOf e, (readEntry_eq_ok_iff here).mpr ⟨e.2, rfl, form⟩, ?_⟩
        rw [(ih others).mpr ⟨entries, forms, rfl⟩]
        rfl

theorem readEntries_eq_ok_iff {d : Draft} (whole : d.Whole) {read : List (Visibility × Path)} :
    readEntries d = .ok read ↔ ∃ items entries, d = .list items none ∧
      List.Forall₂ IsEntry entries items ∧ read = entries.map entryOf := by
  constructor
  · intro ok
    unfold readEntries at ok
    split at ok
    · rename_i items cut
      obtain ⟨rfl, wholes⟩ := whole.list
      obtain ⟨_, all, ⟨⟩⟩ := bind_eq_ok.mp ok
      obtain ⟨entries, forms, rfl⟩ := (mapM_readEntry_eq_ok_iff wholes).mp all
      exact ⟨items, entries, rfl, forms, rfl⟩
    · cases ok
  · rintro ⟨items, entries, rfl, forms, rfl⟩
    obtain ⟨-, wholes⟩ := whole.list
    rw [readEntries, (mapM_readEntry_eq_ok_iff wholes).mpr ⟨entries, forms, rfl⟩]
    rfl

/-- A file list is read from a text exactly if the text holds it. -/
theorem ofText_eq_ok_iff {s : List Char} {list : FileList} :
    ofText s = .ok list ↔ ∃ version entries, Holds s version entries ∧
      version ∈ supportedVersions ∧ list = ⟨version, entries.map entryOf⟩ := by
  constructor
  · intro ok
    rw [ofText] at ok
    generalize drafted : Draft.ofText s = result at ok
    obtain ⟨d, more⟩ := result
    obtain ⟨⟨version, read⟩, pair, ends⟩ := bind_eq_ok.mp ok
    dsimp only at ends
    split at ends
    · cases ends
    · rename_i noMore
      split at ends
      · cases ends
      · rename_i supported
        cases ends
        rw [Bool.not_eq_true] at noMore
        rw [noMore] at drafted
        have written := (Draft.ofText_eq_iff (skipFault?_of_readPair pair)).mp drafted
        obtain ⟨x, y, record, versionRead, entriesRead⟩ :=
          (readPair_eq_ok_iff (by decide) written.whole).mp pair
        obtain rfl := readString_eq_ok_iff.mp versionRead
        obtain ⟨items, entries, rfl, forms, rfl⟩ :=
          (readEntries_eq_ok_iff (record.whole_second written.whole)).mp entriesRead
        refine ⟨version, entries, ⟨d, written, items, record, forms⟩, ?_, rfl⟩
        simpa using supported
  · rintro ⟨version, entries, ⟨d, written, items, record, forms⟩, supported, rfl⟩
    have entriesRead : readEntries (.list items none) = .ok (entries.map entryOf) :=
      (readEntries_eq_ok_iff (record.whole_second written.whole)).mpr
        ⟨items, entries, rfl, forms, rfl⟩
    have pair : readPair .fileList "version" "headers" (readString .string) readEntries d =
        .ok (version, entries.map entryOf) :=
      (readPair_eq_ok_iff (by decide) written.whole).mpr ⟨_, _, record, rfl, entriesRead⟩
    have known : ¬(!supportedVersions.contains version) = true := by simpa using supported
    rw [ofText, written.ofText]
    refine bind_eq_ok.mpr ⟨_, pair, ?_⟩
    dsimp only
    rw [if_neg Bool.false_ne_true, if_neg known]
    rfl

theorem Holds.concrete {s : List Char} {version : String} {entries : List (Visibility × String)}
    (holds : Holds s version entries) : ∀ e ∈ entries, e.1 ∈ Visibility.concrete := by
  obtain ⟨d, -, items, -, forms⟩ := holds
  induction forms with
  | nil => nofun
  | cons form _ ih =>
    refine List.forall_mem_cons.mpr ⟨?_, ih⟩
    obtain ⟨x, -, named⟩ := form
    cases named with
    | word concrete => exact concrete
    | object concrete => exact concrete

/-! ## Adding the headers of a text -/

theorem isEmpty_ofString {s : String} : (Path.ofString s).bytes.isEmpty = true ↔ s = "" := by
  constructor
  · intro empty
    have same : Path.ofString s = Path.ofString "" :=
      congrArg Path.mk (List.isEmpty_iff.mp empty)
    rw [← Path.text_ofString s, same, Path.text_ofString]
  · rintro rfl
    rfl

/-- Entries with a path are gone through one by one. -/
theorem headers_append {before : List (Visibility × String)} (paths : ∀ e ∈ before, e.2 ≠ "")
    (rest : List (Visibility × Path)) :
    headers (before.map entryOf ++ rest) =
      (before.map headerOf ++ (headers rest).1, (headers rest).2) := by
  induction before with
  | nil => rfl
  | cons e before ih =>
    obtain ⟨here, others⟩ := List.forall_mem_cons.mp paths
    have path : ¬(Path.ofString e.2).bytes.isEmpty = true := fun empty =>
      here (isEmpty_ofString.mp empty)
    rw [List.map_cons, List.cons_append, entryOf, headers, if_neg path, ih others]
    rfl

section Append

variable {text version : String} {entries : List (Visibility × String)}

theorem append_of_holds (holds : Holds text.toList version entries)
    (supported : version ∈ supportedVersions) (origin : Path) (hs : List Header) :
    append text origin hs = (hs ++ (headers (entries.map entryOf)).1,
      (headers (entries.map entryOf)).2.mapError (.invalidFileList origin.text)) := by
  have read := ofText_eq_ok_iff.mpr ⟨version, entries, holds, supported, rfl⟩
  rw [append, read]

theorem append_all_of_holds (holds : Holds text.toList version entries)
    (supported : version ∈ supportedVersions) (paths : ∀ e ∈ entries, e.2 ≠ "") (origin : Path)
    (hs : List Header) :
    append text origin hs = (hs ++ entries.map headerOf, .ok ()) := by
  have all := headers_append paths []
  rw [List.append_nil] at all
  rw [append_of_holds holds supported, all]
  simp [headers, Except.mapError]

end Append

end LibraryHeaders.FileList
