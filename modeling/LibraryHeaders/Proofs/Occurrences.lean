import LibraryHeaders.Text.Search
import Mathlib.Data.List.Infix

/-!
# Occurrences in text

What the searches of a text find, and what splitting it gives, said through concatenation.
-/

namespace LibraryHeaders.Text

theorem after?_eq_some_iff {start s rest : List Char} :
    after? start s = some rest ↔ s = start ++ rest := by
  induction start generalizing s with
  | nil => simp [after?]
  | cons a start ih =>
    cases s with
    | nil => simp [after?]
    | cons c s =>
      by_cases same : a = c
      · simp [after?, same, ih]
      · simp [after?, same, Ne.symm same]

theorem after?_isSome_iff {start s : List Char} : (after? start s).isSome = true ↔ start <+: s := by
  simp only [Option.isSome_iff_exists, after?_eq_some_iff]
  constructor
  · rintro ⟨rest, same⟩
    exact ⟨rest, same.symm⟩
  · rintro ⟨rest, same⟩
    exact ⟨rest, same.symm⟩

theorem occursIn_iff {needle s : List Char} : occursIn needle s = true ↔ needle <:+: s := by
  unfold occursIn
  induction s with
  | nil =>
    rw [afterFirst?, after?_isSome_iff]
    simp
  | cons c s ih =>
    rw [List.infix_cons_iff, ← ih, ← after?_isSome_iff, afterFirst?]
    cases after? needle (c :: s) <;> simp

theorem endsWith_iff {s ending : List Char} : endsWith s ending = true ↔ ending <:+ s :=
  List.isSuffixOf_iff_suffix

theorem beforeLast?_isSome_iff {needle s : List Char} :
    (beforeLast? needle s).isSome = true ↔ needle <:+: s := by
  induction s with
  | nil =>
    rw [beforeLast?, Option.isSome_map, after?_isSome_iff]
    simp
  | cons c s ih =>
    rw [List.infix_cons_iff, ← ih, ← after?_isSome_iff, beforeLast?]
    cases beforeLast? needle s <;> simp

theorem infix_of_append {needle front rest s : List Char} (parts : s = front ++ (needle ++ rest)) :
    needle <:+: s :=
  ⟨front, rest, by simp [parts]⟩

/-- A text begins for the first time in another one behind `front`. -/
structure FirstAt (needle front s : List Char) : Prop where
  occurs : ∃ rest, s = front ++ (needle ++ rest)
  first : ∀ other rest, s = other ++ (needle ++ rest) → front.length ≤ other.length

/-- A text begins for the last time in another one behind `front`. -/
structure LastAt (needle front s : List Char) : Prop where
  occurs : ∃ rest, s = front ++ (needle ++ rest)
  last : ∀ other rest, s = other ++ (needle ++ rest) → other.length ≤ front.length

theorem FirstAt.unique {needle front front' s : List Char} (here : FirstAt needle front s)
    (there : FirstAt needle front' s) : front = front' := by
  obtain ⟨rest, parts⟩ := here.occurs
  obtain ⟨rest', parts'⟩ := there.occurs
  have lower := here.first front' rest' parts'
  have upper := there.first front rest parts
  exact (List.append_inj (parts.symm.trans parts') (by omega)).1

theorem LastAt.unique {needle front front' s : List Char} (here : LastAt needle front s)
    (there : LastAt needle front' s) : front = front' := by
  obtain ⟨rest, parts⟩ := here.occurs
  obtain ⟨rest', parts'⟩ := there.occurs
  have upper := here.last front' rest' parts'
  have lower := there.last front rest parts
  exact (List.append_inj (parts.symm.trans parts') (by omega)).1

theorem firstAt_of_afterFirst? {needle s rest : List Char}
    (found : afterFirst? needle s = some rest) :
    ∃ front, FirstAt needle front s ∧ s = front ++ (needle ++ rest) := by
  induction s with
  | nil =>
    have parts := after?_eq_some_iff.mp found
    exact ⟨[], ⟨⟨rest, parts⟩, fun _ _ _ => Nat.zero_le _⟩, parts⟩
  | cons c s ih =>
    cases here : after? needle (c :: s) with
    | some behind =>
      simp only [afterFirst?, here, Option.some.injEq] at found
      subst found
      have parts := after?_eq_some_iff.mp here
      exact ⟨[], ⟨⟨behind, parts⟩, fun _ _ _ => Nat.zero_le _⟩, parts⟩
    | none =>
      simp only [afterFirst?, here] at found
      obtain ⟨front, firstAt, parts⟩ := ih found
      refine ⟨c :: front, ⟨⟨rest, by simp [parts]⟩, ?_⟩, by simp [parts]⟩
      intro other later split
      cases other with
      | nil =>
        have starts : after? needle (c :: s) = some later := after?_eq_some_iff.mpr split
        simp [starts] at here
      | cons d other =>
        have lower := firstAt.first other later (List.cons.inj split).2
        simpa using lower

theorem lastAt_of_beforeLast? {needle s front : List Char}
    (found : beforeLast? needle s = some front) : LastAt needle front s := by
  induction s generalizing front with
  | nil =>
    obtain ⟨rest, here, rfl⟩ := Option.map_eq_some_iff.mp found
    have parts : [] = needle ++ rest := after?_eq_some_iff.mp here
    refine ⟨⟨rest, parts⟩, ?_⟩
    intro other later split
    have none := (List.append_eq_nil_iff.mp split.symm).1
    simp [none]
  | cons c s ih =>
    cases behind : beforeLast? needle s with
    | some before =>
      simp only [beforeLast?, behind, Option.some.injEq] at found
      subst found
      have lastAt := ih behind
      obtain ⟨rest, parts⟩ := lastAt.occurs
      refine ⟨⟨rest, by simp [parts]⟩, ?_⟩
      intro other later split
      cases other with
      | nil => exact Nat.zero_le _
      | cons d other =>
        have upper := lastAt.last other later (List.cons.inj split).2
        simpa using upper
    | none =>
      simp only [beforeLast?, behind] at found
      obtain ⟨rest, here, rfl⟩ := Option.map_eq_some_iff.mp found
      have parts : c :: s = needle ++ rest := after?_eq_some_iff.mp here
      refine ⟨⟨rest, parts⟩, ?_⟩
      intro other later split
      cases other with
      | nil => exact Nat.le_refl _
      | cons d other =>
        have occurs := infix_of_append (List.cons.inj split).2
        simp [← beforeLast?_isSome_iff, behind] at occurs

/-- A text that occurs in another one occurs there for a last time. -/
theorem exists_lastAt {needle front rest s : List Char} (parts : s = front ++ (needle ++ rest)) :
    ∃ last, LastAt needle last s ∧ front.length ≤ last.length := by
  have occurs := beforeLast?_isSome_iff.mpr (infix_of_append parts)
  obtain ⟨last, found⟩ := Option.isSome_iff_exists.mp occurs
  have lastAt := lastAt_of_beforeLast? found
  exact ⟨last, lastAt, lastAt.last front rest parts⟩

theorem beforeLast?_eq_some_iff {needle s front : List Char} :
    beforeLast? needle s = some front ↔ LastAt needle front s := by
  constructor
  · exact lastAt_of_beforeLast?
  · intro lastAt
    obtain ⟨rest, parts⟩ := lastAt.occurs
    have isSome := beforeLast?_isSome_iff.mpr (infix_of_append parts)
    obtain ⟨front', found⟩ := Option.isSome_iff_exists.mp isSome
    obtain rfl := (lastAt_of_beforeLast? found).unique lastAt
    exact found

theorem afterFirst?_eq_some_iff {needle s rest : List Char} :
    afterFirst? needle s = some rest ↔
      ∃ front, FirstAt needle front s ∧ s = front ++ (needle ++ rest) := by
  constructor
  · exact firstAt_of_afterFirst?
  · rintro ⟨front, firstAt, parts⟩
    have isSome : (afterFirst? needle s).isSome = true :=
      occursIn_iff.mpr (infix_of_append parts)
    obtain ⟨rest', found⟩ := Option.isSome_iff_exists.mp isSome
    obtain ⟨front', firstAt', parts'⟩ := firstAt_of_afterFirst? found
    have same := firstAt.unique firstAt'
    subst same
    have rests : rest = rest' := by simpa [parts'] using parts.symm
    exact rests ▸ found

section Split

variable {α : Type} {sep : α}

/-- The first separator cuts a list in one way only. -/
theorem append_sep_inj {part part' rest rest' : List α} (plain : sep ∉ part) (plain' : sep ∉ part')
    (same : part ++ sep :: rest = part' ++ sep :: rest') : part = part' ∧ rest = rest' := by
  induction part generalizing part' with
  | nil =>
    cases part' with
    | nil =>
      cases same
      exact ⟨rfl, rfl⟩
    | cons c part' =>
      cases same
      exact absurd List.mem_cons_self plain'
  | cons c part ih =>
    cases part' with
    | nil =>
      cases same
      exact absurd List.mem_cons_self plain
    | cons d part' =>
      obtain ⟨rfl, later⟩ := List.cons_eq_cons.mp same
      obtain ⟨rfl, rfl⟩ :=
        ih (List.not_mem_of_not_mem_cons plain) (List.not_mem_of_not_mem_cons plain') later
      exact ⟨rfl, rfl⟩

/-- What holds no separator and stands in front of a text ends before the first separator. -/
theorem exists_append_of_notMem {part rest front behind : List α} (plain : sep ∉ front)
    (ends : rest = [] ∨ rest.head? = some sep) (same : part ++ rest = front ++ behind) :
    ∃ left, part = front ++ left := by
  rcases List.append_eq_append_iff.mp same with ⟨more, rfl, parts⟩ | ⟨left, parts, _⟩
  · cases more with
    | nil => exact ⟨[], by simp⟩
    | cons c more =>
      rcases ends with rfl | first
      · cases parts
      · have isSep : c = sep := by simpa [parts] using first
        exact absurd (by simp [isSep]) plain
  · exact ⟨left, parts⟩

variable [DecidableEq α]

theorem split_of_notMem {s : List α} (plain : sep ∉ s) : split sep s = [s] := by
  induction s with
  | nil => rfl
  | cons c s ih =>
    rw [split, if_neg (List.ne_of_not_mem_cons plain).symm, ih (List.not_mem_of_not_mem_cons plain)]

theorem split_append {part : List α} (plain : sep ∉ part) (rest : List α) :
    split sep (part ++ sep :: rest) = part :: split sep rest := by
  induction part with
  | nil => rw [List.nil_append, split, if_pos rfl]
  | cons c part ih =>
    rw [List.cons_append, split, if_neg (List.ne_of_not_mem_cons plain).symm,
      ih (List.not_mem_of_not_mem_cons plain)]

/-- What holds of a single part, and of a part in front of what it holds of, holds of all lists. -/
theorem split_induction (sep : α) {P : List α → Prop} (single : ∀ part, sep ∉ part → P part)
    (more : ∀ part rest, sep ∉ part → P rest → P (part ++ sep :: rest)) (s : List α) : P s := by
  induction h : s.length using Nat.strongRecOn generalizing s with
  | ind n ih =>
    by_cases inside : sep ∈ s
    · obtain ⟨part, rest, rfl, plain⟩ := List.eq_append_cons_of_mem inside
      rw [List.length_append, List.length_cons] at h
      exact more part rest plain (ih rest.length (by omega) rest rfl)
    · exact single s inside

/-- Splitting goes through a list that is cut at any separator. -/
theorem split_append_sep (s rest : List α) :
    split sep (s ++ sep :: rest) = split sep s ++ split sep rest := by
  induction s using split_induction sep with
  | single part plain => rw [split_append plain, split_of_notMem plain, List.singleton_append]
  | more part tail plain ih =>
    rw [List.append_assoc, List.cons_append, split_append plain, split_append plain, ih,
      List.cons_append]

theorem split_ne_nil (sep : α) (s : List α) : split sep s ≠ [] := by
  induction s using split_induction sep with
  | single part plain =>
    rw [split_of_notMem plain]
    exact List.cons_ne_nil _ _
  | more part rest plain _ =>
    rw [split_append plain]
    exact List.cons_ne_nil _ _

/-- No part holds a separator. -/
theorem notMem_of_mem_split {s part : List α} (mem : part ∈ split sep s) : sep ∉ part := by
  induction s using split_induction sep with
  | single whole plain =>
    rw [split_of_notMem plain, List.mem_singleton] at mem
    rwa [mem]
  | more first rest plain ih =>
    rw [split_append plain] at mem
    rcases List.mem_cons.mp mem with rfl | later
    · exact plain
    · exact ih later

/-- A part with another one behind it stands before a separator. -/
theorem exists_of_mem_dropLast_split {s part : List α} (mem : part ∈ (split sep s).dropLast) :
    ∃ front rest, s = front ++ (part ++ sep :: rest) := by
  induction s using split_induction sep with
  | single whole plain => simp [split_of_notMem plain] at mem
  | more first rest plain ih =>
    simp only [split_append plain, List.dropLast_cons_of_ne_nil (split_ne_nil sep rest),
      List.mem_cons] at mem
    rcases mem with rfl | later
    · exact ⟨[], rest, rfl⟩
    · obtain ⟨front, behind, parts⟩ := ih later
      exact ⟨first ++ sep :: front, behind, by simp [parts]⟩

theorem eq_of_split_eq_singleton {s part : List α} (single : split sep s = [part]) : s = part := by
  by_cases inside : sep ∈ s
  · obtain ⟨front, rest, rfl, plain⟩ := List.eq_append_cons_of_mem inside
    rw [split_append plain, List.cons_eq_cons] at single
    exact absurd single.2 (split_ne_nil _ _)
  · rw [split_of_notMem inside] at single
    exact List.singleton_inj.mp single

end Split

end LibraryHeaders.Text
