import LibraryHeaders.Proofs.Json.Numbers
import LibraryHeaders.Proofs.Json.Strings

/-!
# Written tokens

A text lexes into tokens if it is their spellings one behind the other with blanks before, between
and behind them. A number has to be set off from what follows it. The scanner finds the tokens of a
text that lexes, and a text in which it finds nothing that is not well formed does so.
-/

namespace LibraryHeaders.Json.Token

/-- The text is the word for the token. -/
inductive Spelt : Token → List Char → Prop where
  | null : Spelt .null ['n', 'u', 'l', 'l']
  | yes : Spelt (.bool true) ['t', 'r', 'u', 'e']
  | no : Spelt (.bool false) ['f', 'a', 'l', 's', 'e']
  | number {l : Number.Literal} {w : List Char} (spelt : l.Spelt w) : Spelt (.number l.value) w
  | string {ps : List Piece} {w : List Char} (spells : Spells ps w) :
      Spelt (.string ((characters .closed [] ps).map String.ofList)) ('"' :: (w ++ ['"']))
  | openList : Spelt .openList ['[']
  | closeList : Spelt .closeList [']']
  | openObject : Spelt .openObject ['{']
  | closeObject : Spelt .closeObject ['}']
  | comma : Spelt .comma [',']
  | colon : Spelt .colon [':']

/-- Nothing goes on behind the token as if it belonged to it. -/
def Apart (t : Token) (s : List Char) : Prop := ∀ v, t = .number v → Number.Stops s

/-- The text is these tokens, with blanks around them. -/
inductive Lexes : List Token → List Char → Prop where
  | nil : Lexes [] []
  | blank {c : Char} {ts : List Token} {s : List Char} (space : isSpace c = true)
      (rest : Lexes ts s) : Lexes ts (c :: s)
  | token {t : Token} {ts : List Token} {w s : List Char} (spelt : t.Spelt w) (apart : t.Apart s)
      (rest : Lexes ts s) : Lexes (t :: ts) (w ++ s)

/-- The token is well formed. -/
def IsSound : Token → Prop
  | .broken _ _ => False
  | .brokenString _ _ => False
  | .stray => False
  | _ => True

variable {t : Token} {ts : List Token} {w s rest word : List Char} {c : Char}

theorem Spelt.isSound (spelt : t.Spelt w) : t.IsSound := by
  cases spelt <;> trivial

theorem Lexes.blanks {b : List Char} (spaces : ∀ c ∈ b, isSpace c = true) (rest : Lexes ts s) :
    Lexes ts (b ++ s) := by
  induction b with
  | nil => exact rest
  | cons c b ih =>
    obtain ⟨space, spaces⟩ := List.forall_mem_cons.mp spaces
    exact .blank space (ih spaces)

/-! ## Reading what is written -/

theorem ofWord_append (t : Token) (word s : List Char) : ofWord t word (word ++ s) = (t, s) := by
  induction word with
  | nil => rfl
  | cons a word ih => rw [List.cons_append, ofWord, if_pos rfl, ih]

theorem ofString_of_spells {ps : List Piece} (spells : Spells ps w) (s : List Char) :
    ofString (w ++ '"' :: s) = (.string ((characters .closed [] ps).map String.ofList), s) := by
  rw [ofString, scanString_of_spells spells, List.append_nil]
  dsimp only [Ending.fault?]
  rw [List.reverse_reverse]

/-- A written number begins with its sign or with a digit. -/
theorem head_of_literal_spelt {l : Number.Literal} (spelt : l.Spelt w) :
    ∃ c v, w = c :: v ∧ (c = '-' ∨ c.isDigit = true) := by
  obtain ⟨all, -, f, e, -, -, rfl⟩ := spelt
  obtain ⟨d, ds, whole⟩ := List.exists_cons_of_ne_nil all.1
  cases l.negative with
  | true => exact ⟨'-', _, rfl, Or.inl rfl⟩
  | false =>
    rw [whole]
    exact ⟨d, _, rfl, Or.inr (all.2 d (whole ▸ List.mem_cons_self))⟩

theorem next_of_number (first : c = '-' ∨ c.isDigit = true) (s : List Char) :
    isSpace c = false ∧ next c s = ofNumber (c :: s) := by
  constructor
  · rw [Bool.eq_false_iff]
    intro space
    simp only [isSpace, Bool.or_eq_true, beq_iff_eq] at space
    rcases space with ((rfl | rfl) | rfl) | rfl <;> (revert first; decide)
  · unfold next
    split
    case h_11 => exact if_pos first
    all_goals exact absurd first (by decide)

/-- A word is the next token of a text that begins with it. -/
theorem next_of_spelt (spelt : t.Spelt w) (apart : t.Apart s) :
    ∃ c v, w = c :: v ∧ isSpace c = false ∧ next c (v ++ s) = (t, s) := by
  cases spelt with
  | null => exact ⟨_, _, rfl, rfl, ofWord_append .null _ s⟩
  | yes => exact ⟨_, _, rfl, rfl, ofWord_append (.bool true) _ s⟩
  | no => exact ⟨_, _, rfl, rfl, ofWord_append (.bool false) _ s⟩
  | number spelt =>
    obtain ⟨c, v, rfl, first⟩ := head_of_literal_spelt spelt
    obtain ⟨noSpace, isNumber⟩ := next_of_number first (v ++ s)
    refine ⟨c, v, rfl, noSpace, ?_⟩
    rw [isNumber, ofNumber, ← List.cons_append, Number.scan_of_spelt spelt (apart _ rfl)]
  | @string ps w spells =>
    refine ⟨_, _, rfl, rfl, ?_⟩
    rw [List.append_assoc]
    exact ofString_of_spells spells s
  | openList | closeList | openObject | closeObject | comma | colon => exact ⟨_, _, rfl, rfl, rfl⟩

theorem scanAll_of_lexes (lexes : Lexes ts s) {fuel : Nat} (enough : s.length < fuel)
    (acc : List Token) : scanAll fuel acc s = acc.reverse ++ ts := by
  induction lexes generalizing fuel acc with
  | nil =>
    cases fuel with
    | zero => cases enough
    | succ fuel => rw [scanAll, List.append_nil]
  | blank space _ ih =>
    cases fuel with
    | zero => cases enough
    | succ fuel =>
      rw [List.length_cons] at enough
      rw [scanAll, if_pos space, ih (by omega)]
  | @token t ts w s spelt apart _ ih =>
    obtain ⟨c, v, rfl, noSpace, found⟩ := next_of_spelt spelt apart
    cases fuel with
    | zero => cases enough
    | succ fuel =>
      rw [List.length_append, List.length_cons] at enough
      rw [List.cons_append, scanAll, noSpace, found]
      dsimp only [Bool.false_eq_true, if_false]
      rw [if_neg Bool.false_ne_true, ih (by omega), List.reverse_cons, List.append_assoc,
        List.singleton_append]

/-! ## What is read is written -/

theorem eq_of_ofWord {t' : Token} (sound : t'.IsSound) (found : ofWord t word s = (t', rest)) :
    t' = t ∧ s = word ++ rest := by
  induction word generalizing s with
  | nil =>
    cases found
    exact ⟨rfl, rfl⟩
  | cons a word ih =>
    cases s with
    | nil =>
      cases found
      cases sound
    | cons c s =>
      rw [ofWord] at found
      split at found
      · rename_i same
        obtain ⟨rfl, rfl⟩ := ih found
        exact ⟨rfl, by rw [same, List.cons_append]⟩
      · cases found
        cases sound

theorem eq_closed_of_fault? {ending : Ending} (sound : ending.fault? = none) :
    ending = .closed := by
  cases ending with
  | closed => rfl
  | endOfText | control | badEscape | badHex => cases sound

theorem spelt_of_ofString (sound : t.IsSound) (found : ofString s = (t, rest)) :
    ∃ w, s = w ++ '"' :: rest ∧ t.Spelt ('"' :: (w ++ ['"'])) ∧ ∀ v, t ≠ .number v := by
  rw [ofString] at found
  generalize scanned : scanString [] s = result at found
  obtain ⟨pieces, ending, rest'⟩ := result
  dsimp only at found
  split at found
  · rename_i closed
    cases found
    obtain rfl := eq_closed_of_fault? closed
    obtain ⟨ps, w, rfl, spells, rfl⟩ := spells_of_scanString scanned
    refine ⟨w, rfl, ?_, nofun⟩
    rw [List.append_nil, List.reverse_reverse]
    exact .string spells
  · split at found <;> (cases found; cases sound)

theorem spelt_of_ofNumber (sound : t.IsSound) (found : ofNumber s = (t, rest)) :
    ∃ w, s = w ++ rest ∧ t.Spelt w ∧ Number.NoDigit rest := by
  rw [ofNumber] at found
  split at found
  · rename_i scanned
    cases found
    obtain ⟨w, split, spelt, stop⟩ := Number.spelt_of_scan scanned
    exact ⟨w, split, .number spelt, stop⟩
  · cases found
    cases sound

/-- A token that is well formed has been read off the beginning of the text. -/
theorem spelt_of_next (sound : t.IsSound) (found : next c s = (t, rest)) :
    ∃ w, c :: s = w ++ rest ∧ t.Spelt w ∧ ∀ v, t = .number v → Number.NoDigit rest := by
  unfold next at found
  split at found
  case h_7 =>
    obtain ⟨w, rfl, spelt, noNumber⟩ := spelt_of_ofString sound found
    exact ⟨_, by simp, spelt, fun v same => absurd same (noNumber v)⟩
  case h_8 =>
    obtain ⟨rfl, rfl⟩ := eq_of_ofWord sound found
    exact ⟨_, rfl, .null, nofun⟩
  case h_9 =>
    obtain ⟨rfl, rfl⟩ := eq_of_ofWord sound found
    exact ⟨_, rfl, .yes, nofun⟩
  case h_10 =>
    obtain ⟨rfl, rfl⟩ := eq_of_ofWord sound found
    exact ⟨_, rfl, .no, nofun⟩
  case h_11 =>
    split at found
    · obtain ⟨w, split, spelt, stop⟩ := spelt_of_ofNumber sound found
      exact ⟨w, split, spelt, fun _ _ => stop⟩
    · cases found
      cases sound
  all_goals cases found
  · exact ⟨_, rfl, .openObject, nofun⟩
  · exact ⟨_, rfl, .closeObject, nofun⟩
  · exact ⟨_, rfl, .openList, nofun⟩
  · exact ⟨_, rfl, .closeList, nofun⟩
  · exact ⟨_, rfl, .comma, nofun⟩
  · exact ⟨_, rfl, .colon, nofun⟩

/-- No token begins with what could continue a number, but for a digit. -/
theorem Lexes.stops (lexes : Lexes ts s) (noDigit : Number.NoDigit s) : Number.Stops s := by
  have others : ∀ c ∈ s.head?, c ≠ '.' ∧ c ≠ 'e' ∧ c ≠ 'E' := by
    cases lexes with
    | nil => nofun
    | blank space =>
      rintro c ⟨rfl⟩
      refine ⟨?_, ?_, ?_⟩ <;> (rintro rfl; cases space)
    | @token _ _ w _ spelt apart =>
      obtain ⟨c, v, rfl, -, found⟩ := next_of_spelt spelt apart
      rintro c' ⟨rfl⟩
      have sound := spelt.isSound
      refine ⟨?_, ?_, ?_⟩ <;> (rintro rfl; cases found; cases sound)
  exact fun c mem => ⟨noDigit c mem, others c mem⟩

theorem scanAll_reverse (fuel : Nat) (acc : List Token) (s : List Char) :
    scanAll fuel acc s = acc.reverse ++ scanAll fuel [] s := by
  induction fuel generalizing acc s with
  | zero => exact (List.append_nil _).symm
  | succ fuel ih =>
    cases s with
    | nil => exact (List.append_nil _).symm
    | cons c s =>
      rw [scanAll, scanAll]
      split
      · exact ih acc s
      · dsimp only
        rw [ih, ih [_], List.reverse_cons, List.append_assoc, List.reverse_singleton]

theorem lexes_of_scanAll {fuel : Nat} (enough : s.length < fuel)
    (sound : ∀ t ∈ scanAll fuel [] s, t.IsSound) : Lexes (scanAll fuel [] s) s := by
  induction fuel generalizing s with
  | zero => cases enough
  | succ fuel ih =>
    cases s with
    | nil => exact .nil
    | cons c s =>
      rw [List.length_cons] at enough
      rw [scanAll] at sound ⊢
      split at sound
      · rename_i space
        rw [if_pos space]
        exact .blank space (ih (by omega) sound)
      · rename_i noSpace
        rw [if_neg noSpace]
        generalize found : next c s = result at sound ⊢
        obtain ⟨t, rest⟩ := result
        dsimp only at sound ⊢
        rw [scanAll_reverse, List.reverse_singleton, List.singleton_append] at sound ⊢
        obtain ⟨soundFirst, soundRest⟩ := List.forall_mem_cons.mp sound
        obtain ⟨w, split, spelt, stop⟩ := spelt_of_next soundFirst found
        have shorter : rest.length < fuel := by
          have length := congrArg List.length split
          obtain ⟨d, v, rfl⟩ : ∃ d v, w = d :: v := by
            cases spelt with
            | number spelt =>
              obtain ⟨d, v, rfl, -⟩ := head_of_literal_spelt spelt
              exact ⟨d, v, rfl⟩
            | _ => exact ⟨_, _, rfl⟩
          simp only [List.length_cons, List.length_append] at length
          omega
        have lexes := ih shorter soundRest
        rw [split]
        exact .token spelt (fun v same => lexes.stops (stop v same)) lexes

/-- The tokens of a text are those into which it lexes, if they are well formed. -/
theorem ofText_eq_iff (sound : ∀ t ∈ ts, t.IsSound) : ofText s = ts ↔ Lexes ts s := by
  constructor
  · rintro rfl
    exact lexes_of_scanAll (Nat.lt_succ_self _) sound
  · intro lexes
    exact scanAll_of_lexes lexes (Nat.lt_succ_self _) []

end LibraryHeaders.Json.Token
