import LibraryHeaders.Glob
import Mathlib.Computability.Language

/-!
# The language of pieces

Every piece of a glob stands for a language, and a list of pieces for the product of these. The
matcher goes through the pieces from the last to the first and keeps a row of answers, one for each
end of the text. `Marks` says what a row means; putting a piece in front of a row puts its language
in front of the language that the row marks.
-/

namespace LibraryHeaders.Glob

open scoped Computability

/-- The texts all of whose characters satisfy `ok`. -/
def spans (ok : Char → Bool) : Language Char := {t | ∀ c ∈ t, ok c = true}

/-- The texts of one character that satisfies `ok`. -/
def single (ok : Char → Bool) : Language Char := {t | ∃ c, ok c = true ∧ t = [c]}

/-- The path components with the slash behind them. -/
def folder : Language Char := {t | ∃ name, '/' ∉ name ∧ t = name ++ ['/']}

/-- The texts that a piece stands for. -/
def Piece.language : Piece → Language Char
  | .literal c => {[c]}
  | .anyChar => {t | ∃ c, c ≠ '\n' ∧ t = [c]}
  | .anyRun => {t | '/' ∉ t}
  | .anyFolders => folder∗
  | .anyTail => {t | '\n' ∉ t}

/-- The texts that pieces stand for one after the other. -/
def language (ps : List Piece) : Language Char := (ps.map Piece.language).prod

/-- A row answers for every end of a text, the whole text first, whether a language has it. -/
inductive Marks (L : Language Char) : List Char → List Bool → Prop where
  | nil {b : Bool} (here : b = true ↔ [] ∈ L) : Marks L [] [b]
  | cons {c : Char} {s : List Char} {b : Bool} {row : List Bool} (here : b = true ↔ c :: s ∈ L)
      (rest : Marks L s row) : Marks L (c :: s) (b :: row)

variable {L : Language Char} {ok : Char → Bool} {c : Char} {s : List Char}

theorem Marks.headD_iff {row : List Bool} (marks : Marks L s row) :
    row.headD false = true ↔ s ∈ L := by
  cases marks with
  | nil here => exact here
  | cons here _ => exact here

theorem nil_mem_spans_mul : [] ∈ spans ok * L ↔ [] ∈ L := by
  rw [Language.mem_mul]
  constructor
  · rintro ⟨t, _, u, inL, joined⟩
    obtain ⟨-, rfl⟩ := List.append_eq_nil_iff.mp joined
    exact inL
  · intro inL
    exact ⟨[], fun _ h => absurd h List.not_mem_nil, [], inL, rfl⟩

theorem cons_mem_spans_mul :
    c :: s ∈ spans ok * L ↔ c :: s ∈ L ∨ ok c = true ∧ s ∈ spans ok * L := by
  simp only [Language.mem_mul]
  constructor
  · rintro ⟨t, spanned, u, inL, joined⟩
    rcases List.append_eq_cons_iff.mp joined with ⟨rfl, rfl⟩ | ⟨t, rfl, rfl⟩
    · exact Or.inl inL
    · obtain ⟨first, rest⟩ := List.forall_mem_cons.mp spanned
      exact Or.inr ⟨first, t, rest, u, inL, rfl⟩
  · rintro (inL | ⟨first, t, rest, u, inL, rfl⟩)
    · exact ⟨[], fun _ h => absurd h List.not_mem_nil, c :: s, inL, rfl⟩
    · exact ⟨c :: t, List.forall_mem_cons.mpr ⟨first, rest⟩, u, inL, rfl⟩

theorem nil_notMem_single_mul : [] ∉ single ok * L := by
  rw [Language.mem_mul]
  rintro ⟨_, ⟨c, _, rfl⟩, u, _, joined⟩
  cases joined

theorem cons_mem_single_mul : c :: s ∈ single ok * L ↔ ok c = true ∧ s ∈ L := by
  rw [Language.mem_mul]
  constructor
  · rintro ⟨_, ⟨c, first, rfl⟩, u, inL, joined⟩
    cases joined
    exact ⟨first, inL⟩
  · rintro ⟨first, inL⟩
    exact ⟨[c], ⟨c, first, rfl⟩, s, inL, rfl⟩

theorem nil_notMem_folder_mul : [] ∉ folder * L := by
  rw [Language.mem_mul]
  rintro ⟨_, ⟨name, _, rfl⟩, u, _, joined⟩
  simp at joined

/-- The first slash ends the first component. -/
theorem cons_mem_folder_mul :
    c :: s ∈ folder * L ↔ if c = '/' then s ∈ L else s ∈ folder * L := by
  simp only [Language.mem_mul]
  constructor
  · rintro ⟨_, ⟨name, plain, rfl⟩, u, inL, joined⟩
    cases name with
    | nil =>
      cases joined
      exact inL
    | cons d name =>
      cases joined
      rw [if_neg (List.ne_of_not_mem_cons plain).symm]
      exact ⟨name ++ ['/'], ⟨name, List.not_mem_of_not_mem_cons plain, rfl⟩, u, inL, rfl⟩
  · split
    · rename_i slash
      intro inL
      exact ⟨['/'], ⟨[], List.not_mem_nil, rfl⟩, s, inL, by rw [slash]; rfl⟩
    · rename_i other
      rintro ⟨_, ⟨name, plain, rfl⟩, u, inL, rfl⟩
      exact ⟨c :: name ++ ['/'],
        ⟨c :: name, List.not_mem_cons_of_ne_of_not_mem (Ne.symm other) plain, rfl⟩, u, inL, rfl⟩

theorem notMem_folder_mul (plain : '/' ∉ s) : s ∉ folder * L := by
  induction s with
  | nil => exact nil_notMem_folder_mul
  | cons c s ih =>
    rw [cons_mem_folder_mul, if_neg (List.ne_of_not_mem_cons plain).symm]
    exact ih (List.not_mem_of_not_mem_cons plain)

theorem append_mem_folder_mul {part : List Char} (plain : '/' ∉ part) :
    part ++ '/' :: s ∈ folder * L ↔ s ∈ L := by
  induction part with
  | nil => rw [List.nil_append, cons_mem_folder_mul, if_pos rfl]
  | cons c part ih =>
    rw [List.cons_append, cons_mem_folder_mul, if_neg (List.ne_of_not_mem_cons plain).symm]
    exact ih (List.not_mem_of_not_mem_cons plain)

/-- No component stands in front, or some do. -/
theorem mem_folders_mul : s ∈ folder∗ * L ↔ s ∈ L ∨ s ∈ folder * (folder∗ * L) := by
  have unfolded : folder∗ * L = L + folder * (folder∗ * L) := by
    rw [← mul_assoc, ← one_add_mul, Language.one_add_self_mul_kstar_eq_kstar]
  rw [← Language.mem_add, ← unfolded]

@[simp]
theorem language_nil : language [] = 1 := rfl

@[simp]
theorem language_cons (p : Piece) (ps : List Piece) :
    language (p :: ps) = p.language * language ps := by
  rw [language, List.map_cons, List.prod_cons]
  rfl

@[simp]
theorem language_append (ps qs : List Piece) :
    language (ps ++ qs) = language ps * language qs := by
  rw [language, List.map_append, List.prod_append]
  rfl

/-- Pieces stand for what can be cut into one part for each of them. -/
theorem mem_language_iff {ps : List Piece} :
    s ∈ language ps ↔
      ∃ parts, List.Forall₂ (fun p part => part ∈ Piece.language p) ps parts ∧
        s = parts.flatten := by
  induction ps generalizing s with
  | nil => simp
  | cons p ps ih =>
    rw [language_cons, Language.mem_mul]
    constructor
    · rintro ⟨part, first, rest, later, rfl⟩
      obtain ⟨parts, each, rfl⟩ := ih.mp later
      exact ⟨part :: parts, .cons first each, rfl⟩
    · rintro ⟨_, each, rfl⟩
      cases each with
      | cons first each => exact ⟨_, first, _, ih.mpr ⟨_, each, rfl⟩, rfl⟩

theorem marks_endRow (s : List Char) : Marks 1 s (endRow s) := by
  induction s with
  | nil => exact .nil (by simp)
  | cons c s ih => exact .cons (by simp) ih

theorem marks_spanRow {after : List Bool} (marks : Marks L s after) :
    Marks (spans ok * L) s (spanRow ok s after) := by
  induction marks with
  | nil here => exact .nil (here.trans nil_mem_spans_mul.symm)
  | cons here _ ih =>
    refine .cons ?_ ih
    rw [cons_mem_spans_mul, ← here, ← ih.headD_iff, Bool.or_eq_true, Bool.and_eq_true]

theorem marks_charRow {after : List Bool} (marks : Marks L s after) :
    Marks (single ok * L) s (charRow ok s after) := by
  induction marks with
  | nil _ => exact .nil (by simp [nil_notMem_single_mul])
  | cons _ rest ih =>
    cases rest with
    | nil next => exact .cons (by rw [cons_mem_single_mul, ← next, Bool.and_eq_true]) ih
    | cons next _ => exact .cons (by rw [cons_mem_single_mul, ← next, Bool.and_eq_true]) ih

/-- Along with the row goes the answer behind the next slash, which is the one for a first
component with all that may follow it. -/
theorem marks_foldersRow {after : List Bool} (marks : Marks L s after) :
    Marks (folder∗ * L) s (foldersRow s after).1 ∧
      ((foldersRow s after).2 = true ↔ s ∈ folder * (folder∗ * L)) := by
  induction marks with
  | @nil b here =>
    refine ⟨.nil ?_, by simp [foldersRow, nil_notMem_folder_mul]⟩
    rw [mem_folders_mul, here]
    simp [nil_notMem_folder_mul]
  | @cons c s b row here _ ih =>
    obtain ⟨marked, behind⟩ := ih
    have next :
        (if c = '/' then (foldersRow s row).1.headD false else (foldersRow s row).2) = true ↔
          c :: s ∈ folder * (folder∗ * L) := by
      rw [cons_mem_folder_mul, ← marked.headD_iff, ← behind]
      split <;> rfl
    refine ⟨.cons ?_ marked, next⟩
    rw [mem_folders_mul, ← here, ← next, Bool.or_eq_true]

theorem language_literal (c : Char) : (Piece.literal c).language = single (· == c) := by
  ext t
  constructor
  · intro same
    exact ⟨c, beq_self_eq_true c, same⟩
  · rintro ⟨d, same, rfl⟩
    rw [beq_iff_eq.mp same]
    exact Set.mem_singleton _

theorem language_anyChar : Piece.anyChar.language = single (· != '\n') :=
  Set.ext fun t => by simp [Piece.language, single]

theorem language_anyRun : Piece.anyRun.language = spans (· != '/') :=
  Set.ext fun t => by simp [Piece.language, spans, List.forall_mem_ne']

theorem language_anyTail : Piece.anyTail.language = spans (· != '\n') :=
  Set.ext fun t => by simp [Piece.language, spans, List.forall_mem_ne']

theorem marks_row {after : List Bool} (marks : Marks L s after) (p : Piece) :
    Marks (p.language * L) s (p.row s after) := by
  cases p with
  | literal c => exact language_literal c ▸ marks_charRow marks
  | anyChar => exact language_anyChar ▸ marks_charRow marks
  | anyRun => exact language_anyRun ▸ marks_spanRow marks
  | anyFolders => exact (marks_foldersRow marks).1
  | anyTail => exact language_anyTail ▸ marks_spanRow marks

theorem marks_rows (ps : List Piece) (s : List Char) :
    Marks (language ps) s (rows ps s) := by
  induction ps with
  | nil => exact marks_endRow s
  | cons p ps ih =>
    rw [language_cons]
    exact marks_row ih p

/-- The matcher accepts the texts that are put together from one text for each piece. -/
theorem accepts_iff (ps : List Piece) (s : List Char) :
    accepts ps s = true ↔ s ∈ language ps :=
  (marks_rows ps s).headD_iff

end LibraryHeaders.Glob
