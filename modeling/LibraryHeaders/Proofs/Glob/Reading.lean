import LibraryHeaders.Proofs.Glob.Language

/-!
# How a pattern is read

The pieces of a pattern once more, by rules that look at the text before and behind a run of stars
instead of counting along. A pattern has exactly one reading, and it is the one that the reader
finds. With the languages of the pieces this says which paths a glob matches.
-/

namespace LibraryHeaders.Glob

/-- A path component begins behind a text. -/
def ComponentStart (front : List Char) : Prop := front = [] ∨ front.getLast? = some '/'

instance (front : List Char) : Decidable (ComponentStart front) :=
  inferInstanceAs (Decidable (_ ∨ _))

/-- The pieces of a pattern behind the part of it that has been read. -/
inductive Reading : List Char → List Char → List Piece → Prop where
  | done {front : List Char} : Reading front [] []
  /-- Two or more stars that fill a component, with the slash behind them. -/
  | folders {front rest : List Char} {ps : List Piece} {n : Nat} (start : ComponentStart front)
      (long : 2 ≤ n) (later : Reading (front ++ List.replicate n '*' ++ ['/']) rest ps) :
      Reading front (List.replicate n '*' ++ '/' :: rest) (.anyFolders :: ps)
  /-- Two or more stars that fill the last component. -/
  | tail {front : List Char} {n : Nat} (start : ComponentStart front) (long : 2 ≤ n) :
      Reading front (List.replicate n '*') [.anyTail]
  /-- Any other run of stars, as long as it is. -/
  | run {front rest : List Char} {ps : List Piece} {n : Nat} (nonempty : 0 < n)
      (before : front.getLast? ≠ some '*') (behind : rest.head? ≠ some '*')
      (within : ¬ (ComponentStart front ∧ 2 ≤ n ∧ (rest = [] ∨ rest.head? = some '/')))
      (later : Reading (front ++ List.replicate n '*') rest ps) :
      Reading front (List.replicate n '*' ++ rest) (.anyRun :: ps)
  | anyChar {front rest : List Char} {ps : List Piece} (later : Reading (front ++ ['?']) rest ps) :
      Reading front ('?' :: rest) (.anyChar :: ps)
  | literal {front rest : List Char} {ps : List Piece} {c : Char} (star : c ≠ '*') (mark : c ≠ '?')
      (later : Reading (front ++ [c]) rest ps) : Reading front (c :: rest) (.literal c :: ps)

theorem componentStart_nil : ComponentStart [] := Or.inl rfl

@[simp]
theorem componentStart_concat {front : List Char} {c : Char} :
    ComponentStart (front ++ [c]) ↔ c = '/' := by
  simp [ComponentStart]

section Reader

variable {boundary : Bool} {stars : Nat} {c : Char} {s : List Char}

theorem piecesFrom_star :
    piecesFrom boundary stars ('*' :: s) = piecesFrom boundary (stars + 1) s := by
  rw [piecesFrom, if_pos rfl]

theorem piecesFrom_replicate (n : Nat) :
    piecesFrom boundary stars (List.replicate n '*' ++ s) = piecesFrom boundary (stars + n) s := by
  induction n generalizing stars with
  | zero => rfl
  | succ n ih =>
    rw [List.replicate_succ, List.cons_append, piecesFrom_star, ih]
    congr 1
    omega

theorem piecesFrom_nil : piecesFrom boundary 0 [] = [] := rfl

theorem piecesFrom_cons (star : c ≠ '*') :
    piecesFrom boundary 0 (c :: s) = Piece.ofChar c :: piecesFrom (c = '/') 0 s := by
  rw [piecesFrom, if_neg star, if_pos rfl]

theorem piecesFrom_folders (long : 2 ≤ stars) :
    piecesFrom true stars ('/' :: s) = .anyFolders :: piecesFrom true 0 s := by
  rw [piecesFrom, if_neg (by decide), if_neg (by omega), if_pos (by simpa using long)]

theorem piecesFrom_tail (long : 2 ≤ stars) : piecesFrom true stars [] = [.anyTail] := by
  rw [piecesFrom, if_neg (by omega), if_pos (by simpa using long)]

/-- Any other run becomes one piece. What is behind it begins with no star, so it does not matter
what is said about the boundary there. -/
theorem piecesFrom_run (other : Bool) (nonempty : 0 < stars) (behind : s.head? ≠ some '*')
    (within : ¬ (boundary = true ∧ 2 ≤ stars ∧ (s = [] ∨ s.head? = some '/'))) :
    piecesFrom boundary stars s = .anyRun :: piecesFrom other 0 s := by
  cases s with
  | nil =>
    have inner : ¬ (boundary && decide (2 ≤ stars)) = true := by simpa using within
    rw [piecesFrom, if_neg (by omega), if_neg inner]
    rfl
  | cons c s =>
    have star : c ≠ '*' := by simpa using behind
    have inner : ¬ (boundary && decide (2 ≤ stars) && decide (c = '/')) = true := by
      simpa using within
    rw [piecesFrom, if_neg star, if_neg (by omega), if_neg inner, piecesFrom_cons star]

end Reader

theorem Reading.ofChar {front rest : List Char} {ps : List Piece} {c : Char} (star : c ≠ '*')
    (later : Reading (front ++ [c]) rest ps) :
    Reading front (c :: rest) (Piece.ofChar c :: ps) := by
  rw [Piece.ofChar]
  split
  · rename_i mark
    subst mark
    exact .anyChar later
  · rename_i mark
    exact .literal star mark later

/-- What the reader finds is a reading; the stars that it has counted stand before what is left. -/
theorem reading_piecesFrom {front : List Char} {boundary : Bool}
    (start : boundary = true ↔ ComponentStart front) (before : front.getLast? ≠ some '*')
    (stars : Nat) (s : List Char) :
    Reading front (List.replicate stars '*' ++ s) (piecesFrom boundary stars s) := by
  induction s generalizing front boundary stars with
  | nil =>
    rcases Nat.eq_zero_or_pos stars with rfl | nonempty
    · exact .done
    by_cases whole : boundary = true ∧ 2 ≤ stars
    · obtain ⟨rfl, long⟩ := whole
      rw [piecesFrom_tail long, List.append_nil]
      exact .tail (start.mp rfl) long
    · have inner : ¬ (boundary = true ∧ 2 ≤ stars ∧
          (([] : List Char) = [] ∨ ([] : List Char).head? = some '/')) := by
        simpa using whole
      rw [piecesFrom_run boundary nonempty (by simp) inner]
      rw [start] at inner
      exact .run nonempty before (by simp) inner .done
  | cons c s ih =>
    by_cases star : c = '*'
    · subst star
      have read := ih start before (stars + 1)
      rwa [List.replicate_succ', List.append_assoc, ← piecesFrom_star] at read
    have next (front' : List Char) : Reading (front' ++ [c]) s (piecesFrom (c = '/') 0 s) :=
      ih (by simp) (by simpa using star) 0
    rcases Nat.eq_zero_or_pos stars with rfl | nonempty
    · rw [piecesFrom_cons star]
      exact .ofChar star (next front)
    by_cases whole : boundary = true ∧ 2 ≤ stars ∧ c = '/'
    · obtain ⟨rfl, long, rfl⟩ := whole
      rw [piecesFrom_folders long]
      exact .folders (start.mp rfl) long (next _)
    · have behind : (c :: s).head? ≠ some '*' := by simpa using star
      have inner : ¬ (boundary = true ∧ 2 ≤ stars ∧ (c :: s = [] ∨ (c :: s).head? = some '/')) := by
        simpa using whole
      rw [piecesFrom_run boundary nonempty behind inner, piecesFrom_cons star]
      rw [start] at inner
      exact .run nonempty before behind inner (.ofChar star (next _))

/-- There is no other reading. -/
theorem Reading.eq_piecesFrom {front s : List Char} {ps : List Piece}
    (reading : Reading front s ps) : ps = piecesFrom (ComponentStart front) 0 s := by
  induction reading with
  | done => rfl
  | folders start long _ ih =>
    rw [piecesFrom_replicate, Nat.zero_add, decide_eq_true start, piecesFrom_folders long, ih]
    simp only [componentStart_concat, decide_true]
  | @tail front n start long =>
    rw [← List.append_nil (List.replicate n '*'), piecesFrom_replicate, Nat.zero_add,
      decide_eq_true start, piecesFrom_tail long]
  | run nonempty before behind within _ ih =>
    rw [piecesFrom_replicate, Nat.zero_add, ih]
    exact (piecesFrom_run _ nonempty behind (by simpa using within)).symm
  | anyChar _ ih =>
    rw [piecesFrom_cons (by decide), ih]
    simp only [componentStart_concat, Piece.ofChar, if_true]
  | literal star mark _ ih =>
    rw [piecesFrom_cons star, ih, Piece.ofChar, if_neg mark]
    simp only [componentStart_concat]

theorem reading_iff {pattern : List Char} {ps : List Piece} :
    Reading [] pattern ps ↔ ps = parse pattern := by
  constructor
  · exact Reading.eq_piecesFrom
  · rintro rfl
    exact reading_piecesFrom (by simp [componentStart_nil]) (by simp) 0 pattern

theorem isGlob_eq_true_iff {pattern : String} : isGlob pattern = true ↔ '*' ∈ pattern.toList :=
  List.contains_iff_mem

theorem ofPattern_eq_notAGlob_iff {pattern : String} {v : Visibility} :
    ofPattern pattern v = .error .notAGlob ↔ '*' ∉ pattern.toList := by
  rw [← isGlob_eq_true_iff, ofPattern]
  cases isGlob pattern with
  | false => simp
  | true =>
    by_cases large : Automaton.maxSize < size (parse pattern.toList) <;> simp [large]

theorem pieces_of_ofPattern {pattern : String} {v : Visibility} {g : Glob}
    (compiled : ofPattern pattern v = .ok g) : g.pieces = parse pattern.toList := by
  rw [ofPattern] at compiled
  split at compiled
  · cases compiled
  · split at compiled
    · cases compiled
    · cases compiled
      rfl

/-- A pattern without a star is no glob. Every pattern has one reading, and its glob matches the
paths that can be cut into one part for each piece of the reading. -/
theorem globs_match_their_readings (pattern : String) (v : Visibility) :
    (ofPattern pattern v = .error .notAGlob ↔ '*' ∉ pattern.toList) ∧
      (isGlob pattern = true ↔ '*' ∈ pattern.toList) ∧
      (∃! ps, Reading [] pattern.toList ps) ∧
      ∀ g ps, ofPattern pattern v = .ok g → Reading [] pattern.toList ps →
        ∀ path, g.matchesText path = true ↔
          ∃ parts, List.Forall₂ (fun p part => part ∈ Piece.language p) ps parts ∧
            path = parts.flatten := by
  refine ⟨ofPattern_eq_notAGlob_iff, isGlob_eq_true_iff, ?_, ?_⟩
  · exact ⟨parse pattern.toList, reading_iff.mpr rfl, fun _ => reading_iff.mp⟩
  · intro g ps compiled reading path
    rw [matchesText, pieces_of_ofPattern compiled, ← reading_iff.mp reading, accepts_iff]
    exact mem_language_iff

/-- Folders in the middle, an unknown character, and signs that mean something elsewhere. -/
def sourceGlob : Glob :=
  ⟨"/S/**/?+(*).h", .pub, [.literal '/', .literal 'S', .literal '/', .anyFolders, .anyChar,
    .literal '+', .literal '(', .anyRun, .literal ')', .literal '.', .literal 'h']⟩

theorem sourceGlob_cuts_path :
    ofPattern sourceGlob.pattern .pub = .ok sourceGlob ∧
      Reading [] sourceGlob.pattern.toList sourceGlob.pieces ∧
      ∃ parts, List.Forall₂ (fun p part => part ∈ Piece.language p) sourceGlob.pieces parts ∧
        "/S/a/b/x+(y).h".toList = parts.flatten := by
  have compiled : ofPattern sourceGlob.pattern .pub = .ok sourceGlob := by decide
  have reading : Reading [] sourceGlob.pattern.toList sourceGlob.pieces :=
    reading_iff.mpr (by decide)
  have language := (globs_match_their_readings sourceGlob.pattern .pub).2.2.2 _ _ compiled reading
  exact ⟨compiled, reading, (language _).mp (by decide)⟩

end LibraryHeaders.Glob
