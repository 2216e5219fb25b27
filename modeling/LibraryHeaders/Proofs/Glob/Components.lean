import LibraryHeaders.Proofs.Glob.Reading
import LibraryHeaders.Proofs.Occurrences

/-!
# Globs component by component

A glob without `?` can be matched without a look across slashes: pattern and path are cut at the
slashes, a component of two or more stars takes any number of path components, and any other
component fills exactly one. For paths without a line feed this is what the pieces of the pattern
match. The proof goes through the components of the pattern; `mem_parse_front_iff` and
`mem_parse_last_iff` say what each of them matches together with those behind it.
-/

namespace LibraryHeaders.Glob

open scoped Computability
open Text

/-- A component of two or more stars and nothing else. -/
def Wide (p : List Char) : Prop := ∃ n, 2 ≤ n ∧ p = List.replicate n '*'

/-- A component of a pattern against a whole component of a path: every run of stars stands for any
text. -/
inductive Fills : List Char → List Char → Prop where
  | done : Fills [] []
  | same {c : Char} {p s : List Char} (star : c ≠ '*') (rest : Fills p s) : Fills (c :: p) (c :: s)
  | run {n : Nat} {p s : List Char} (t : List Char) (nonempty : 0 < n) (behind : p.head? ≠ some '*')
      (rest : Fills p s) : Fills (List.replicate n '*' ++ p) (t ++ s)

/-- The components of a pattern against the components of a path. -/
inductive ComponentsMatch : List (List Char) → List (List Char) → Prop where
  | done : ComponentsMatch [] []
  | wide {p : List Char} {ps qs : List (List Char)} (taken : List (List Char)) (stars : Wide p)
      (last : ps = [] → taken ≠ []) (rest : ComponentsMatch ps qs) :
      ComponentsMatch (p :: ps) (taken ++ qs)
  | one {p q : List Char} {ps qs : List (List Char)} (plain : ¬ Wide p) (fills : Fills p q)
      (rest : ComponentsMatch ps qs) : ComponentsMatch (p :: ps) (q :: qs)

theorem dropWhile_stars {p : List Char} (behind : p.head? ≠ some '*') (n : Nat) :
    (List.replicate n '*' ++ p).dropWhile (· == '*') = p := by
  induction n with
  | zero =>
    cases p with
    | nil => rfl
    | cons c p =>
      have star : c ≠ '*' := by simpa using behind
      rw [List.replicate_zero, List.nil_append, List.dropWhile_cons_of_neg (by simpa using star)]
  | succ n ih => rw [List.replicate_succ, List.cons_append, List.dropWhile_cons_of_pos rfl, ih]

theorem fills_nil_iff {s : List Char} : Fills [] s ↔ s = [] := by
  constructor
  · intro fills
    generalize empty : [] = p at fills
    cases fills with
    | done => rfl
    | same => cases empty
    | run t nonempty =>
      obtain ⟨none, -⟩ := List.append_eq_nil_iff.mp empty.symm
      rw [List.replicate_eq_nil_iff] at none
      omega
  · rintro rfl
    exact .done

theorem fills_cons_iff {c : Char} {p s : List Char} (star : c ≠ '*') :
    Fills (c :: p) s ↔ ∃ s', s = c :: s' ∧ Fills p s' := by
  constructor
  · intro fills
    generalize given : c :: p = pattern at fills
    cases fills with
    | done => cases given
    | same _ rest =>
      cases given
      exact ⟨_, rfl, rest⟩
    | @run n _ _ t nonempty =>
      obtain ⟨n, rfl⟩ := Nat.exists_eq_succ_of_ne_zero (Nat.ne_of_gt nonempty)
      cases given
      exact absurd rfl star
  · rintro ⟨s', rfl, rest⟩
    exact .same star rest

theorem fills_run_iff {n : Nat} {p s : List Char} (nonempty : 0 < n)
    (behind : p.head? ≠ some '*') :
    Fills (List.replicate n '*' ++ p) s ↔ ∃ t s', s = t ++ s' ∧ Fills p s' := by
  constructor
  · intro fills
    generalize given : List.replicate n '*' ++ p = pattern at fills
    obtain ⟨n, rfl⟩ := Nat.exists_eq_succ_of_ne_zero (Nat.ne_of_gt nonempty)
    cases fills with
    | done => cases given
    | same star =>
      cases given
      exact absurd rfl star
    | run t _ behind' rest =>
      have same := congrArg (List.dropWhile (· == '*')) given
      rw [dropWhile_stars behind, dropWhile_stars behind'] at same
      exact ⟨t, _, rfl, same ▸ rest⟩
  · rintro ⟨t, s', rfl, rest⟩
    exact .run t nonempty behind rest

/-- The first component is read on its own, unless its stars fill it. -/
theorem piecesFrom_component {boundary : Bool} {stars : Nat} {p r : List Char} (plain : '/' ∉ p)
    (ends : r = [] ∨ r.head? = some '/')
    (inner : ¬ (boundary = true ∧ Wide (List.replicate stars '*' ++ p))) :
    piecesFrom boundary stars (p ++ r) = piecesFrom false stars p ++ piecesFrom false 0 r := by
  have behind : r.head? ≠ some '*' := by
    rcases ends with rfl | slash
    · simp
    · simp [slash]
  induction p generalizing boundary stars with
  | nil =>
    rcases Nat.eq_zero_or_pos stars with rfl | nonempty
    · rcases ends with rfl | slash
      · rfl
      · obtain ⟨rest, rfl⟩ := List.head?_eq_some_iff.mp slash
        rw [List.nil_append, piecesFrom_cons (by decide), piecesFrom_cons (by decide)]
        rfl
    · have within : ¬ (boundary = true ∧ 2 ≤ stars ∧ (r = [] ∨ r.head? = some '/')) :=
        fun h => inner ⟨h.1, stars, h.2.1, List.append_nil _⟩
      rw [List.nil_append, piecesFrom_run false nonempty behind within,
        piecesFrom_run false nonempty (by simp) (by simp)]
      rfl
  | cons c p ih =>
    have later := List.not_mem_of_not_mem_cons plain
    by_cases star : c = '*'
    · subst star
      rw [List.cons_append, piecesFrom_star, piecesFrom_star]
      refine ih later ?_
      rwa [List.replicate_succ', List.append_assoc]
    have slash : c ≠ '/' := (List.ne_of_not_mem_cons plain).symm
    have next : piecesFrom (c = '/') 0 (p ++ r) =
        piecesFrom (c = '/') 0 p ++ piecesFrom false 0 r := by
      rw [decide_eq_false slash]
      exact ih later (by simp)
    rw [List.cons_append]
    rcases Nat.eq_zero_or_pos stars with rfl | nonempty
    · rw [piecesFrom_cons star, piecesFrom_cons star, next]
      rfl
    · rw [piecesFrom_run false nonempty (by simpa using star) (by simp [slash]),
        piecesFrom_run false nonempty (by simpa using star) (by simp [slash]),
        piecesFrom_cons star, piecesFrom_cons star, next]
      rfl

/-- A literal in front of what the rest of a component matches. -/
theorem mem_literal_mul_iff {L : Language Char} {c : Char} {p s : List Char} (star : c ≠ '*')
    (slash : c ≠ '/') (later : ∀ u, u ∈ L ↔ '/' ∉ u ∧ Fills p u) :
    s ∈ (Piece.literal c).language * L ↔ '/' ∉ s ∧ Fills (c :: p) s := by
  rw [language_literal, fills_cons_iff star]
  cases s with
  | nil => simp [nil_notMem_single_mul]
  | cons d s =>
    rw [cons_mem_single_mul, later]
    constructor
    · rintro ⟨same, free, fills⟩
      obtain rfl := beq_iff_eq.mp same
      exact ⟨List.not_mem_cons_of_ne_of_not_mem (Ne.symm slash) free, s, rfl, fills⟩
    · rintro ⟨free, s', same, fills⟩
      cases same
      exact ⟨beq_self_eq_true c, List.not_mem_of_not_mem_cons free, fills⟩

/-- A run of stars in front of what the rest of a component matches. -/
theorem mem_run_mul_iff {L : Language Char} {n : Nat} {p s : List Char} (nonempty : 0 < n)
    (behind : p.head? ≠ some '*') (later : ∀ u, u ∈ L ↔ '/' ∉ u ∧ Fills p u) :
    s ∈ Piece.anyRun.language * L ↔ '/' ∉ s ∧ Fills (List.replicate n '*' ++ p) s := by
  rw [Language.mem_mul, fills_run_iff nonempty behind]
  constructor
  · rintro ⟨t, free, u, inLater, rfl⟩
    obtain ⟨freeLater, fills⟩ := (later u).mp inLater
    exact ⟨List.not_mem_append free freeLater, t, u, rfl, fills⟩
  · rintro ⟨free, t, u, rfl, fills⟩
    rw [List.mem_append, not_or] at free
    exact ⟨t, free.1, u, (later u).mpr ⟨free.2, fills⟩, rfl⟩

/-- What the pieces of one component match. -/
theorem mem_component_iff {p s : List Char} (plain : '/' ∉ p) (marks : '?' ∉ p) (stars : Nat) :
    s ∈ language (piecesFrom false stars p) ↔
      '/' ∉ s ∧ Fills (List.replicate stars '*' ++ p) s := by
  induction p generalizing stars s with
  | nil =>
    have ends (u : List Char) : u ∈ language [] ↔ '/' ∉ u ∧ Fills [] u := by
      rw [language_nil, Language.mem_one, fills_nil_iff]
      constructor
      · rintro rfl
        exact ⟨List.not_mem_nil, rfl⟩
      · exact And.right
    rcases Nat.eq_zero_or_pos stars with rfl | nonempty
    · exact ends s
    · rw [piecesFrom_run false nonempty (by simp) (by simp), language_cons]
      exact mem_run_mul_iff nonempty (by simp) ends
  | cons c p ih =>
    have plainRest := List.not_mem_of_not_mem_cons plain
    have marksRest := List.not_mem_of_not_mem_cons marks
    by_cases star : c = '*'
    · subst star
      rw [piecesFrom_star, ih plainRest marksRest, List.replicate_succ', List.append_assoc]
      rfl
    have slash : c ≠ '/' := (List.ne_of_not_mem_cons plain).symm
    have mark : c ≠ '?' := (List.ne_of_not_mem_cons marks).symm
    have here (u : List Char) :
        u ∈ language (piecesFrom false 0 (c :: p)) ↔ '/' ∉ u ∧ Fills (c :: p) u := by
      rw [piecesFrom_cons star, decide_eq_false slash, Piece.ofChar, if_neg mark, language_cons]
      exact mem_literal_mul_iff star slash fun u => ih plainRest marksRest 0
    rcases Nat.eq_zero_or_pos stars with rfl | nonempty
    · exact here s
    · have behind : (c :: p).head? ≠ some '*' := by simpa using star
      rw [piecesFrom_run false nonempty behind (by simp), language_cons]
      exact mem_run_mul_iff nonempty behind here

/-- What the pieces of a component and of what follows it match. -/
theorem mem_component_slash_iff {p s : List Char} {ps : List Piece} (plain : '/' ∉ p)
    (marks : '?' ∉ p) :
    s ∈ language (piecesFrom false 0 p ++ .literal '/' :: ps) ↔
      ∃ q u, s = q ++ '/' :: u ∧ '/' ∉ q ∧ Fills p q ∧ u ∈ language ps := by
  rw [language_append, language_cons, language_literal, Language.mem_mul]
  constructor
  · rintro ⟨q, inComponent, u, inLater, rfl⟩
    obtain ⟨free, fills⟩ := (mem_component_iff plain marks 0).mp inComponent
    cases u with
    | nil => exact absurd inLater nil_notMem_single_mul
    | cons c u =>
      obtain ⟨slash, inRest⟩ := cons_mem_single_mul.mp inLater
      obtain rfl := beq_iff_eq.mp slash
      exact ⟨q, u, rfl, free, fills, inRest⟩
  · rintro ⟨q, u, rfl, free, fills, inRest⟩
    refine ⟨q, (mem_component_iff plain marks 0).mpr ⟨free, fills⟩, '/' :: u, ?_, rfl⟩
    exact cons_mem_single_mul.mpr ⟨beq_self_eq_true '/', inRest⟩

theorem ComponentsMatch.ne_nil {ps qs : List (List Char)} (matched : ComponentsMatch ps qs)
    (some : ps ≠ []) : qs ≠ [] := by
  induction matched with
  | done => exact some
  | @wide p ps qs taken stars last rest ih =>
    rw [Ne, List.append_eq_nil_iff, not_and]
    intro none
    exact ih fun ends => last ends none
  | one => exact List.cons_ne_nil _ _

theorem componentsMatch_wide_iff {p : List Char} {ps qs : List (List Char)} (stars : Wide p) :
    ComponentsMatch (p :: ps) qs ↔
      ∃ taken rest, qs = taken ++ rest ∧ (ps = [] → taken ≠ []) ∧ ComponentsMatch ps rest := by
  constructor
  · intro matched
    cases matched with
    | wide taken _ last rest => exact ⟨taken, _, rfl, last, rest⟩
    | one plain => exact absurd stars plain
  · rintro ⟨taken, rest, rfl, last, matched⟩
    exact .wide taken stars last matched

theorem componentsMatch_one_iff {p q : List Char} {ps qs : List (List Char)} (plain : ¬ Wide p) :
    ComponentsMatch (p :: ps) (q :: qs) ↔ Fills p q ∧ ComponentsMatch ps qs := by
  constructor
  · intro matched
    generalize given : q :: qs = parts at matched
    cases matched with
    | wide _ stars => exact absurd stars plain
    | one _ fills rest =>
      cases given
      exact ⟨fills, rest⟩
  · rintro ⟨fills, rest⟩
    exact .one plain fills rest

theorem componentsMatch_nil_iff {qs : List (List Char)} : ComponentsMatch [] qs ↔ qs = [] := by
  constructor
  · intro matched
    cases matched
    rfl
  · rintro rfl
    exact .done

/-- Folders in front take some of the first components, whatever is asked of the others. -/
theorem mem_folders_iff {L : Language Char} {ps : List (List Char)} (some : ps ≠ [])
    {s : List Char} (oneLine : '\n' ∉ s)
    (later : ∀ t, '\n' ∉ t → (t ∈ L ↔ ComponentsMatch ps (split '/' t))) :
    s ∈ folder∗ * L ↔ ∃ taken rest, split '/' s = taken ++ rest ∧ ComponentsMatch ps rest := by
  induction s using split_induction '/' with
  | single part plain =>
    rw [mem_folders_mul, or_iff_left (notMem_folder_mul plain), later part oneLine,
      split_of_notMem plain]
    constructor
    · intro matched
      exact ⟨[], [part], rfl, matched⟩
    · rintro ⟨taken, rest, parts, matched⟩
      rcases List.cons_eq_append_iff.mp parts with ⟨rfl, rfl⟩ | ⟨taken, rfl, none⟩
      · exact matched
      · exact absurd (List.append_eq_nil_iff.mp none.symm).2 (matched.ne_nil some)
  | more part rest plain ih =>
    have oneLineRest : '\n' ∉ rest := by
      simp only [List.mem_append, List.mem_cons, not_or] at oneLine
      exact oneLine.2.2
    rw [mem_folders_mul, append_mem_folder_mul plain, ih oneLineRest, later _ oneLine,
      split_append plain]
    constructor
    · rintro (matched | ⟨taken, others, parts, matched⟩)
      · exact ⟨[], _, rfl, matched⟩
      · exact ⟨part :: taken, others, by rw [parts]; rfl, matched⟩
    · rintro ⟨taken, others, parts, matched⟩
      rcases List.cons_eq_append_iff.mp parts with ⟨rfl, rfl⟩ | ⟨taken, rfl, left⟩
      · exact Or.inl matched
      · exact Or.inr ⟨taken, others, left, matched⟩

theorem parse_wide {p : List Char} (stars : Wide p) : parse p = [.anyTail] := by
  obtain ⟨n, long, rfl⟩ := stars
  rw [parse, ← List.append_nil (List.replicate n '*'), piecesFrom_replicate, Nat.zero_add,
    piecesFrom_tail long]

theorem parse_wide_slash {p : List Char} (stars : Wide p) (rest : List Char) :
    parse (p ++ '/' :: rest) = .anyFolders :: parse rest := by
  obtain ⟨n, long, rfl⟩ := stars
  rw [parse, piecesFrom_replicate, Nat.zero_add, piecesFrom_folders long]
  rfl

theorem parse_component {p : List Char} (plain : '/' ∉ p) (narrow : ¬ Wide p) :
    parse p = piecesFrom false 0 p := by
  have read : piecesFrom true 0 (p ++ []) = piecesFrom false 0 p ++ piecesFrom false 0 [] :=
    piecesFrom_component plain (Or.inl rfl) fun h => narrow h.2
  rwa [piecesFrom_nil, List.append_nil, List.append_nil] at read

theorem parse_component_slash {p : List Char} (plain : '/' ∉ p) (narrow : ¬ Wide p)
    (rest : List Char) :
    parse (p ++ '/' :: rest) = piecesFrom false 0 p ++ .literal '/' :: parse rest := by
  have read : piecesFrom true 0 (p ++ '/' :: rest) =
      piecesFrom false 0 p ++ piecesFrom false 0 ('/' :: rest) :=
    piecesFrom_component plain (Or.inr rfl) fun h => narrow h.2
  rwa [piecesFrom_cons (by decide)] at read

/-- What the last component of a pattern matches. -/
theorem mem_parse_last_iff {p s : List Char} (plain : '/' ∉ p) (marks : '?' ∉ p)
    (oneLine : '\n' ∉ s) :
    s ∈ language (parse p) ↔ ComponentsMatch [p] (split '/' s) := by
  by_cases stars : Wide p
  · have matched : ComponentsMatch [p] (split '/' s ++ []) :=
      .wide _ stars (fun _ => split_ne_nil '/' s) .done
    rw [List.append_nil] at matched
    rw [parse_wide stars, language_cons, language_nil, mul_one]
    exact iff_of_true oneLine matched
  · rw [parse_component plain stars, mem_component_iff plain marks 0]
    by_cases slash : '/' ∈ s
    · obtain ⟨q, u, rfl, free⟩ := List.eq_append_cons_of_mem slash
      rw [split_append free, componentsMatch_one_iff stars, componentsMatch_nil_iff]
      exact iff_of_false (fun h => h.1 slash) (fun h => split_ne_nil '/' u h.2)
    · rw [split_of_notMem slash, componentsMatch_one_iff stars, componentsMatch_nil_iff]
      simp [slash]

/-- What a component that is not the last one matches, with the components behind it. -/
theorem mem_parse_front_iff {p rest s : List Char} (plain : '/' ∉ p) (marks : '?' ∉ p)
    (oneLine : '\n' ∉ s)
    (later : ∀ t, '\n' ∉ t →
      (t ∈ language (parse rest) ↔ ComponentsMatch (split '/' rest) (split '/' t))) :
    s ∈ language (parse (p ++ '/' :: rest)) ↔
      ComponentsMatch (p :: split '/' rest) (split '/' s) := by
  have some := split_ne_nil '/' rest
  by_cases stars : Wide p
  · rw [parse_wide_slash stars, language_cons, componentsMatch_wide_iff stars]
    refine (mem_folders_iff some oneLine later).trans ?_
    simp [some]
  · rw [parse_component_slash plain stars, mem_component_slash_iff plain marks]
    by_cases slash : '/' ∈ s
    · obtain ⟨q, u, rfl, free⟩ := List.eq_append_cons_of_mem slash
      have oneLineRest : '\n' ∉ u := by
        simp only [List.mem_append, List.mem_cons, not_or] at oneLine
        exact oneLine.2.2
      rw [split_append free, componentsMatch_one_iff stars, ← later u oneLineRest]
      constructor
      · rintro ⟨q', u', same, free', fills, inRest⟩
        obtain ⟨rfl, rfl⟩ := append_sep_inj free free' same
        exact ⟨fills, inRest⟩
      · rintro ⟨fills, inRest⟩
        exact ⟨q, u, rfl, free, fills, inRest⟩
    · rw [split_of_notMem slash, componentsMatch_one_iff stars]
      refine iff_of_false ?_ fun h => h.2.ne_nil some rfl
      rintro ⟨q, u, rfl, _⟩
      exact slash (by simp)

/-- The pieces of a pattern match what its components match one by one. -/
theorem mem_language_parse_iff {pattern s : List Char} (marks : '?' ∉ pattern)
    (oneLine : '\n' ∉ s) :
    s ∈ language (parse pattern) ↔ ComponentsMatch (split '/' pattern) (split '/' s) := by
  induction pattern using split_induction '/' generalizing s with
  | single p plain =>
    rw [split_of_notMem plain]
    exact mem_parse_last_iff plain marks oneLine
  | more p rest plain ih =>
    simp only [List.mem_append, List.mem_cons, not_or] at marks
    obtain ⟨marksFirst, _, marksRest⟩ := marks
    rw [split_append plain]
    exact mem_parse_front_iff plain marksFirst oneLine fun t line => ih marksRest line

/-- A glob without `?` matches a path on one line exactly if its components match those of the
path. -/
theorem matchesText_iff_componentsMatch {pattern : String} {v : Visibility} {g : Glob}
    (compiled : ofPattern pattern v = .ok g) (marks : '?' ∉ pattern.toList) {path : List Char}
    (oneLine : '\n' ∉ path) :
    g.matchesText path = true ↔
      ComponentsMatch (split '/' pattern.toList) (split '/' path) := by
  rw [matchesText, pieces_of_ofPattern compiled, accepts_iff]
  exact mem_language_parse_iff marks oneLine

/-- Any folders, then one whose name is partly open, then a file. -/
def vendorGlob : Glob :=
  ⟨"/S/**/v*r/*.h", .proj, [.literal '/', .literal 'S', .literal '/', .anyFolders, .literal 'v',
    .anyRun, .literal 'r', .literal '/', .anyRun, .literal '.', .literal 'h']⟩

theorem vendorGlob_components :
    ofPattern vendorGlob.pattern .proj = .ok vendorGlob ∧ '?' ∉ vendorGlob.pattern.toList ∧
      '\n' ∉ "/S/lib/old/vendor/z.h".toList ∧ '\n' ∉ "/S/lib/vendor/z/z.h".toList ∧
      ComponentsMatch (split '/' vendorGlob.pattern.toList)
        (split '/' "/S/lib/old/vendor/z.h".toList) ∧
      ¬ ComponentsMatch (split '/' vendorGlob.pattern.toList)
        (split '/' "/S/lib/vendor/z/z.h".toList) := by
  have compiled : ofPattern vendorGlob.pattern .proj = .ok vendorGlob := by decide
  have marks : '?' ∉ vendorGlob.pattern.toList := by decide
  have oneLine : '\n' ∉ "/S/lib/old/vendor/z.h".toList := by decide
  have otherLine : '\n' ∉ "/S/lib/vendor/z/z.h".toList := by decide
  have matched := matchesText_iff_componentsMatch compiled marks oneLine
  have missed := matchesText_iff_componentsMatch compiled marks otherLine
  exact ⟨compiled, marks, oneLine, otherLine, matched.mp (by decide), missed.not.mp (by decide)⟩

end LibraryHeaders.Glob
