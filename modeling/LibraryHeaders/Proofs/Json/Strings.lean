import LibraryHeaders.Json.Printer

/-!
# Written strings

Between the quotes of a JSON string every character stands for itself, or an escape stands for it.
An escape may give 16 bits only, and then two of them make up a character. `Spells` says which texts
are written strings, piece by piece, and `Denotes` says which characters the pieces are; pieces with
half a character denote nothing. The scanner finds the pieces of exactly the texts that are spelt,
and the characters of exactly the pieces that denote some.
-/

namespace LibraryHeaders.Json

namespace Token

/-- A piece of a string as it is written. -/
inductive Piece.Spelt : Piece → List Char → Prop where
  | plain {c : Char} (quote : c ≠ '"') (backslash : c ≠ '\\') (visible : 0x20 ≤ c.toNat) :
      Spelt (.char c) [c]
  | short {e c : Char} (escape : escaped? e = some c) : Spelt (.char c) ['\\', e]
  | code {a b c d : Char} {n : Nat} (digits : hex4? a b c d = some n) :
      Spelt (.unit n) ['\\', 'u', a, b, c, d]

/-- The pieces of a string as they are written, one behind the other. -/
inductive Spells : List Piece → List Char → Prop where
  | nil : Spells [] []
  | cons {p : Piece} {ps : List Piece} {w s : List Char} (first : p.Spelt w) (rest : Spells ps s) :
      Spells (p :: ps) (w ++ s)

/-- The character that two escapes make up. -/
def paired (high low : Nat) : Char :=
  Char.ofNat (0x10000 + (high - 0xD800) * 0x400 + (low - 0xDC00))

/-- The pieces are these characters. -/
inductive Denotes : List Piece → List Char → Prop where
  | nil : Denotes [] []
  | char {c : Char} {ps : List Piece} {cs : List Char} (rest : Denotes ps cs) :
      Denotes (.char c :: ps) (c :: cs)
  | unit {n : Nat} {ps : List Piece} {cs : List Char} (whole : n < 0xD800 ∨ 0xDFFF < n)
      (rest : Denotes ps cs) : Denotes (.unit n :: ps) (Char.ofNat n :: cs)
  | pair {high low : Nat} {ps : List Piece} {cs : List Char} (first : 0xD800 ≤ high ∧ high < 0xDC00)
      (second : 0xDC00 ≤ low ∧ low ≤ 0xDFFF) (rest : Denotes ps cs) :
      Denotes (.unit high :: .unit low :: ps) (paired high low :: cs)

variable {p : Piece} {ps qs acc : List Piece} {w s rest cs : List Char}

theorem Spells.append {s' : List Char} (first : Spells ps s) (second : Spells qs s') :
    Spells (ps ++ qs) (s ++ s') := by
  induction first with
  | nil => exact second
  | cons spelt _ ih =>
    rw [List.cons_append, List.append_assoc]
    exact .cons spelt ih

theorem Denotes.append {cs' : List Char} (first : Denotes ps cs) (second : Denotes qs cs') :
    Denotes (ps ++ qs) (cs ++ cs') := by
  induction first with
  | nil => exact second
  | char _ ih => exact .char ih
  | unit whole _ ih => exact .unit whole ih
  | pair high low _ ih => exact .pair high low ih

/-! ## Scanning -/

theorem scanString_of_spelt (spelt : p.Spelt w) (acc : List Piece) (s : List Char) :
    scanString acc (w ++ s) = scanString (p :: acc) s := by
  cases spelt with
  | @plain c quote backslash visible =>
    rw [List.singleton_append, scanString.eq_7 _ _ _ quote (fun _ _ _ _ _ h _ => backslash h)
      (fun _ h _ => backslash h) (fun _ _ h _ => backslash h) (fun h _ => backslash h),
      if_neg (Nat.not_lt.mpr visible)]
  | @short e c escape =>
    have other : e ≠ 'u' := by
      rintro rfl
      cases escape
    rw [List.cons_append, List.singleton_append,
      scanString.eq_5 _ _ _ (fun _ _ _ _ _ h _ => other h) other, escape]
  | code digits =>
    simp only [List.cons_append, List.nil_append]
    rw [scanString, digits]

theorem scanString_of_spells (spells : Spells ps s) (acc : List Piece) (rest : List Char) :
    scanString acc (s ++ '"' :: rest) = (ps.reverse ++ acc, .closed, rest) := by
  induction spells generalizing acc with
  | nil => rw [List.nil_append, scanString, List.reverse_nil, List.nil_append]
  | cons spelt _ ih =>
    rw [List.append_assoc, scanString_of_spelt spelt, ih, List.reverse_cons, List.append_assoc,
      List.singleton_append]

/-- A string that is closed has been spelt. -/
theorem spells_of_scanString (closed : scanString acc s = (qs, .closed, rest)) :
    ∃ ps w, s = w ++ '"' :: rest ∧ Spells ps w ∧ qs = ps.reverse ++ acc := by
  -- the first piece has been read, and the rest of the string is spelt
  have onward {p : Piece} {acc : List Piece} {w s : List Char} (spelt : p.Spelt w)
      (later : ∃ ps v, s = v ++ '"' :: rest ∧ Spells ps v ∧ qs = ps.reverse ++ p :: acc) :
      ∃ ps v, w ++ s = v ++ '"' :: rest ∧ Spells ps v ∧ qs = ps.reverse ++ acc := by
    obtain ⟨ps, v, rfl, spells, rfl⟩ := later
    refine ⟨p :: ps, w ++ v, (List.append_assoc w v _).symm, .cons spelt spells, ?_⟩
    rw [List.reverse_cons, List.append_assoc, List.singleton_append]
  fun_induction scanString acc s with
  | case1 acc => cases closed
  | case2 acc s =>
    cases closed
    exact ⟨[], [], rfl, .nil, rfl⟩
  | case3 acc a b c d s n digits ih => exact onward (.code digits) (ih closed)
  | case4 => cases closed
  | case5 =>
    split at closed <;> cases closed
  | case6 acc e s _ _ c escape ih => exact onward (.short escape) (ih closed)
  | case7 => cases closed
  | case8 => cases closed
  | case9 => cases closed
  | case10 acc c s quote _ _ short bare visible ih =>
    have backslash : c ≠ '\\' := by
      rintro rfl
      cases s with
      | nil => exact bare rfl rfl
      | cons e s => exact short e s rfl rfl
    exact onward (.plain quote backslash (Nat.not_lt.mp visible)) (ih closed)

/-! ## Characters -/

theorem characters_of_denotes (denotes : Denotes ps cs) (acc : List Char) :
    characters .closed acc ps = .ok (acc.reverse ++ cs) := by
  induction denotes generalizing acc with
  | nil =>
    rw [characters, List.append_nil]
    rfl
  | char _ ih => rw [characters, ih, List.reverse_cons, List.append_assoc, List.singleton_append]
  | @unit n _ _ whole _ ih =>
    rw [characters.eq_def]
    dsimp only
    rw [if_neg (by omega), if_pos whole, ih, List.reverse_cons, List.append_assoc,
      List.singleton_append]
  | @pair high low _ _ first second _ ih =>
    rw [characters.eq_def]
    dsimp only
    rw [if_neg (by omega), if_neg (by omega), if_neg (by omega), ih, List.reverse_cons,
      List.append_assoc, List.singleton_append]
    rfl

theorem denotes_of_characters {acc read : List Char} (ok : characters .closed acc ps = .ok read) :
    ∃ cs, Denotes ps cs ∧ read = acc.reverse ++ cs := by
  have onward {c : Char} {acc cs : List Char} (same : read = (c :: acc).reverse ++ cs) :
      read = acc.reverse ++ c :: cs := by
    rwa [List.reverse_cons, List.append_assoc, List.singleton_append] at same
  fun_induction characters .closed acc ps with
  | case1 => cases ok
  | case2 acc =>
    cases ok
    exact ⟨[], .nil, (List.append_nil _).symm⟩
  | case3 acc c s ih =>
    obtain ⟨cs, denotes, same⟩ := ih ok
    exact ⟨_, .char denotes, onward same⟩
  | case4 => cases ok
  | case5 acc n s _ whole ih =>
    obtain ⟨cs, denotes, same⟩ := ih ok
    exact ⟨_, .unit whole denotes, onward same⟩
  | case6 => cases ok
  | case7 => cases ok
  | case8 => cases ok
  | case9 acc n low high m s second ih =>
    obtain ⟨cs, denotes, same⟩ := ih ok
    exact ⟨_, .pair (by omega) (by omega) denotes, onward same⟩

/-- Pieces are read as the characters that they denote. -/
theorem characters_eq_ok_iff {read : List Char} :
    characters .closed [] ps = .ok read ↔ Denotes ps read := by
  constructor
  · intro ok
    obtain ⟨cs, denotes, rfl⟩ := denotes_of_characters ok
    exact denotes
  · intro denotes
    rw [characters_of_denotes denotes]
    rfl

end Token

/-! ## Escaping -/

namespace Printer

theorem hexValue?_hexDigit {n : Nat} (small : n < 16) : Token.hexValue? (hexDigit n) = some n := by
  revert n
  decide

theorem hex4?_hexDigit {n : Nat} (small : n < 0x20) :
    Token.hex4? '0' '0' (hexDigit (n / 16)) (hexDigit (n % 16)) = some n := by
  have high := hexValue?_hexDigit (n := n / 16) (by omega)
  have low := hexValue?_hexDigit (n := n % 16) (Nat.mod_lt n (by decide))
  have zero : Token.hexValue? '0' = some 0 := by decide
  rw [Token.hex4?, zero, high, low]
  simp only [Option.pure_def, Option.bind_eq_bind, Option.bind_some, Option.some.injEq]
  omega

/-- What stands for a character between quotes is a piece that denotes it. -/
theorem escape_spelt (c : Char) :
    ∃ p, Token.Piece.Spelt p (escape c) ∧ Token.Denotes [p] [c] := by
  have char : Token.Denotes [.char c] [c] := .char .nil
  unfold escape
  split
  case h_8 quote backslash _ _ _ _ _ =>
    split
    · rename_i control
      have whole : Token.Denotes [.unit c.toNat] [Char.ofNat c.toNat] :=
        .unit (Or.inl (Nat.lt_trans control (by decide))) .nil
      rw [Char.ofNat_toNat] at whole
      exact ⟨_, .code (hex4?_hexDigit control), whole⟩
    · rename_i visible
      exact ⟨_, .plain quote backslash (Nat.not_lt.mp visible), char⟩
  all_goals exact ⟨_, .short rfl, char⟩

/-- Escaped characters are a written string that denotes them. -/
theorem escape_spells (cs : List Char) :
    ∃ ps, Token.Spells ps (cs.flatMap escape) ∧ Token.Denotes ps cs := by
  induction cs with
  | nil => exact ⟨[], .nil, .nil⟩
  | cons c cs ih =>
    obtain ⟨p, spelt, denotes⟩ := escape_spelt c
    obtain ⟨ps, spells, denotesAll⟩ := ih
    exact ⟨p :: ps, .cons spelt spells, denotes.append denotesAll⟩

end Printer

end LibraryHeaders.Json
