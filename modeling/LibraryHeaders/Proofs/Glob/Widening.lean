import LibraryHeaders.Proofs.Glob.Components
import Mathlib.Data.List.DropRight
import Mathlib.Order.CompletePartialOrder

/-!
# Two stars for one

A component `*` takes one component of a path and `**` takes any number of them, so a pattern with
the wider component should match all that it matched before. Within a pattern it does, since
components with a slash behind them take any characters. At the end of a pattern a `*` takes any
characters as well and a `**` takes no line feed: there the last component of the path decides.
-/

namespace LibraryHeaders.Glob

open scoped Computability
open Text

/-- The text behind the last slash. -/
def lastName (path : List Char) : List Char := path.rtakeWhile (· != '/')

theorem ComponentStart.append {u v : List Char} (first : ComponentStart u)
    (later : ComponentStart v) : ComponentStart (u ++ v) := by
  rcases later with rfl | slash
  · simpa using first
  · exact Or.inr (by simp [slash])

theorem lastName_of_notMem {path : List Char} (plain : '/' ∉ path) : lastName path = path := by
  have noSlash : ∀ c ∈ path, c ≠ '/' := fun c inside same => plain (same ▸ inside)
  exact List.rtakeWhile_eq_self_iff.mpr (by simpa using noSlash)

/-- What stands before the start of a component is no part of the last name. -/
theorem lastName_append {u : List Char} (start : ComponentStart u) (t : List Char) :
    lastName (u ++ t) = lastName t := by
  induction t using List.reverseRecOn with
  | nil =>
    have none : lastName u = [] := by
      refine List.rtakeWhile_eq_nil_iff.mpr ?_
      intro some
      rcases start with empty | slash
      · exact absurd empty some
      · have last : u.getLast some = '/' := by
          simpa [List.getLast?_eq_some_getLast some] using slash
        simp [last]
    simpa [lastName] using none
  | append_singleton t c ih =>
    unfold lastName at ih ⊢
    simp only [← List.append_assoc, List.rtakeWhile_concat, ih]

/-- Whole components with a slash behind each end where a component starts. -/
theorem componentStart_of_mem_folders {u : List Char} (inFolders : u ∈ folder∗) :
    ComponentStart u := by
  obtain ⟨folders, rfl, each⟩ := Language.mem_kstar.mp inFolders
  clear inFolders
  induction folders with
  | nil => exact componentStart_nil
  | cons first rest ih =>
    obtain ⟨inFolder, later⟩ := List.forall_mem_cons.mp each
    obtain ⟨name, _, rfl⟩ := inFolder
    have starts : ComponentStart (name ++ ['/']) := componentStart_concat.mpr rfl
    exact starts.append (ih later)

/-- One component of a pattern with the slash behind it is read on its own, and what it matches ends
where a component starts. -/
theorem exists_pieces_slash {part : List Char} (plain : '/' ∉ part) :
    ∃ ps, (∀ s, parse (part ++ '/' :: s) = ps ++ parse s) ∧ ∀ u ∈ language ps, ComponentStart u := by
  by_cases stars : Wide part
  · refine ⟨[.anyFolders], parse_wide_slash stars, ?_⟩
    intro u inFolders
    exact componentStart_of_mem_folders (by simpa [Piece.language] using inFolders)
  · refine ⟨piecesFrom false 0 part ++ [.literal '/'], ?_, ?_⟩
    · intro s
      simp [parse_component_slash plain stars]
    · intro u inComponent
      simp only [language_append, Language.mem_mul] at inComponent
      obtain ⟨name, _, slash, isSlash, rfl⟩ := inComponent
      have inSlash : slash ∈ (Piece.literal '/').language := by simpa using isSlash
      obtain rfl : slash = ['/'] := inSlash
      exact componentStart_concat.mpr rfl

/-- A pattern is read in two parts where a component starts. -/
theorem exists_pieces_start {front : List Char} (start : ComponentStart front) :
    ∃ ps, (∀ s, parse (front ++ s) = ps ++ parse s) ∧ ∀ u ∈ language ps, ComponentStart u := by
  rcases start with rfl | slash
  · refine ⟨[], fun _ => rfl, ?_⟩
    intro u empty
    exact Or.inl empty
  obtain ⟨before, rfl⟩ := List.getLast?_eq_some_iff.mp slash
  clear slash
  induction before using split_induction '/' with
  | single part plain =>
    simpa using exists_pieces_slash plain
  | more part rest plain ih =>
    obtain ⟨ps, reads, starts⟩ := exists_pieces_slash plain
    obtain ⟨qs, readsRest, startsRest⟩ := ih
    refine ⟨ps ++ qs, ?_, ?_⟩
    · intro s
      have here := reads (rest ++ ['/'] ++ s)
      simp only [readsRest] at here
      simpa using here
    · intro u inBoth
      simp only [language_append, Language.mem_mul] at inBoth
      obtain ⟨first, inFirst, later, inLater, rfl⟩ := inBoth
      exact (starts first inFirst).append (startsRest later inLater)

/-- A star with a slash behind it stands for one component. -/
theorem anyRun_slash_le : Piece.anyRun.language * (Piece.literal '/').language ≤ folder∗ := by
  intro t inBoth
  obtain ⟨name, plain, slash, isSlash, rfl⟩ := Language.mem_mul.mp inBoth
  obtain rfl : slash = ['/'] := isSlash
  have inFolder : name ++ ['/'] ∈ folder := ⟨name, plain, rfl⟩
  have one : folder ≤ folder∗ := le_kstar
  exact one inFolder

/-- Where a slash follows, the wider component matches all that the narrow one matches, whatever
comes before and behind. -/
theorem mem_parse_widened_slash {front rest s : List Char} (start : ComponentStart front)
    (matched : s ∈ language (parse (front ++ '*' :: '/' :: rest))) :
    s ∈ language (parse (front ++ '*' :: '*' :: '/' :: rest)) := by
  obtain ⟨ps, reads, _⟩ := exists_pieces_start start
  have narrow : parse ('*' :: '/' :: rest) = .anyRun :: .literal '/' :: parse rest := rfl
  have wide : parse ('*' :: '*' :: '/' :: rest) = .anyFolders :: parse rest := rfl
  simp only [reads, narrow, language_append, language_cons, ← mul_assoc] at matched
  simp only [reads, wide, language_append, language_cons, ← mul_assoc]
  have wider : language ps * Piece.anyRun.language * (Piece.literal '/').language *
      language (parse rest) ≤ language ps * Piece.anyFolders.language * language (parse rest) := by
    simp only [mul_assoc (language ps)]
    gcongr
    exact anyRun_slash_le
  exact wider matched

/-- At the end of a pattern it matches all but the last names with a line feed. -/
theorem mem_parse_widened_end_iff {front s : List Char} (start : ComponentStart front)
    (matched : s ∈ language (parse (front ++ ['*']))) :
    s ∈ language (parse (front ++ ['*', '*'])) ↔ '\n' ∉ lastName s := by
  obtain ⟨ps, reads, starts⟩ := exists_pieces_start start
  have narrow : parse ['*'] = [.anyRun] := rfl
  have wide : parse ['*', '*'] = [.anyTail] := rfl
  simp only [reads, narrow, wide, language_append, language_cons, language_nil, mul_one,
    Language.mem_mul] at matched ⊢
  constructor
  · rintro ⟨u, inFront, t, oneLine, rfl⟩
    simp only [lastName_append (starts u inFront)]
    exact fun inside => oneLine ((List.rtakeWhile_suffix _ _).subset inside)
  · intro oneLine
    obtain ⟨u, inFront, name, plain, rfl⟩ := matched
    simp only [lastName_append (starts u inFront), lastName_of_notMem plain] at oneLine
    exact ⟨u, inFront, name, oneLine, rfl⟩

/-- If a component of a pattern is one star and gets a second one, the pattern matches the paths
that it matched before, but for those whose last name has a line feed if it is the last component. -/
theorem matches_widened_iff {front back : List Char} {v w : Visibility} {narrow wide : Glob}
    (start : ComponentStart front) (ends : back = [] ∨ back.head? = some '/')
    (compiledNarrow : ofPattern (String.ofList (front ++ '*' :: back)) v = .ok narrow)
    (compiledWide : ofPattern (String.ofList (front ++ '*' :: '*' :: back)) w = .ok wide)
    {path : List Char} (matched : narrow.matchesText path = true) :
    wide.matchesText path = true ↔ (back = [] → '\n' ∉ lastName path) := by
  simp only [matchesText, pieces_of_ofPattern compiledNarrow, pieces_of_ofPattern compiledWide,
    accepts_iff, String.toList_ofList] at matched ⊢
  rcases ends with rfl | slash
  · simpa using mem_parse_widened_end_iff start matched
  · obtain ⟨rest, rfl⟩ := List.head?_eq_some_iff.mp slash
    simpa using mem_parse_widened_slash start matched

/-- The files of some folders. -/
def folderGlob : Glob := ⟨"/S/?ib/*", .pub, parse "/S/?ib/*".toList⟩

/-- All files below some folders. -/
def folderTreeGlob : Glob := ⟨"/S/?ib/**", .pub, parse "/S/?ib/**".toList⟩

theorem folderGlob_widened :
    ofPattern "/S/?ib/*" .pub = .ok folderGlob ∧ ofPattern "/S/?ib/**" .pub = .ok folderTreeGlob ∧
      folderGlob.matchesText "/S/lib/a.h".toList = true ∧
      '\n' ∉ lastName "/S/lib/a.h".toList ∧
      folderTreeGlob.matchesText "/S/lib/a.h".toList = true := by
  have compiledNarrow : ofPattern "/S/?ib/*" .pub = .ok folderGlob := by decide
  have compiledWide : ofPattern "/S/?ib/**" .pub = .ok folderTreeGlob := by decide
  have start : ComponentStart "/S/?ib/".toList := by decide
  have matched : folderGlob.matchesText "/S/lib/a.h".toList = true := by decide
  have oneLine : '\n' ∉ lastName "/S/lib/a.h".toList := by decide
  have widened := matches_widened_iff start (Or.inl rfl) compiledNarrow compiledWide matched
  exact ⟨compiledNarrow, compiledWide, matched, oneLine, widened.mpr fun _ => oneLine⟩

/-- A name with a line feed is one component to a star, and nothing to two stars at the end. -/
theorem line_feed_lost_by_widening :
    ¬ ∀ (front back : List Char) (v : Visibility) (narrow wide : Glob), ComponentStart front →
      (back = [] ∨ back.head? = some '/') →
      ofPattern (String.ofList (front ++ '*' :: back)) v = .ok narrow →
      ofPattern (String.ofList (front ++ '*' :: '*' :: back)) v = .ok wide →
      ∀ path, narrow.matchesText path = true → wide.matchesText path = true := by
  intro always
  have lost := always "/S/".toList [] .pub ⟨"/S/*", .pub, parse "/S/*".toList⟩
    ⟨"/S/**", .pub, parse "/S/**".toList⟩ (by decide) (by decide) (by decide) (by decide)
    "/S/a\nb".toList (by decide)
  revert lost
  decide

end LibraryHeaders.Glob
