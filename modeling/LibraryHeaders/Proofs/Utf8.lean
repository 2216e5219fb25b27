import LibraryHeaders.Path
import Mathlib.Data.List.Basic

/-!
# Reading what was encoded

The bytes of a text are read as that text, and a path that is written as text is shown as that text.
The reader takes a character in as many steps as it has bytes: the first byte opens it, each
continuation byte adds six bits to those read so far, and the last one closes it.
-/

namespace LibraryHeaders

namespace Utf8

/-- The continuation byte with the last six bits of a number. -/
def tail (n : Nat) : UInt8 := UInt8.ofNat (n % 0x40 + 0x80)

/-- The continuation byte with the last six bits of a number is in a range. -/
def Between (low high : UInt8) (n : Nat) : Prop :=
  low.toNat ≤ n % 0x40 + 0x80 ∧ n % 0x40 + 0x80 ≤ high.toNat

theorem between_any (n : Nat) : Between 0x80 0xBF n := by
  simp only [Between, UInt8.toNat_ofNat]
  omega

theorem ofNat_eq_tail (n : Nat) : UInt8.ofNat (n % 64 + 128) = tail n := rfl

theorem toNat_tail (n : Nat) : (tail n).toNat = n % 0x40 + 0x80 := by
  rw [tail, UInt8.toNat_ofNat']
  omega

section Tail

variable {low high : UInt8} {n owed bits : Nat} {r : List UInt8}

theorem tail_between (between : Between low high n) : low ≤ tail n ∧ tail n ≤ high := by
  rw [UInt8.le_iff_toNat_le, UInt8.le_iff_toNat_le, toNat_tail]
  exact between

/-- The step: a continuation byte adds six bits. -/
theorem scan_more (between : Between low high n) :
    scan (some ⟨low, high, owed + 1, bits⟩) (tail n :: r) =
      scan (some ⟨0x80, 0xBF, owed, bits * 64 + n % 64⟩) r := by
  rw [scan, if_pos (tail_between between), toNat_tail, Nat.add_sub_cancel]

theorem scan_last (between : Between low high n) :
    scan (some ⟨low, high, 0, bits⟩) (tail n :: r) =
      some (Char.ofNat (bits * 64 + n % 64)) :: scan none r := by
  rw [scan, if_pos (tail_between between), toNat_tail, Nat.add_sub_cancel]

end Tail

theorem lead_two {n : Nat} (low : 0x80 ≤ n) (high : n ≤ 0x7FF) :
    lead (UInt8.ofNat (n / 64 % 0x20 + 0xC0)) = .opened ⟨0x80, 0xBF, 0, n / 64⟩ := by
  have value : (UInt8.ofNat (n / 64 % 0x20 + 0xC0)).toNat = n / 64 + 0xC0 := by
    rw [UInt8.toNat_ofNat']
    omega
  simp only [lead, value]
  rw [if_neg (by omega), if_neg (by omega), if_pos (by omega), Nat.add_sub_cancel]

theorem lead_three {n : Nat} (low : 0x800 ≤ n) (high : n ≤ 0xFFFF)
    (valid : n < 0xD800 ∨ 0xDFFF < n) :
    ∃ l h, lead (UInt8.ofNat (n / 4096 % 0x10 + 0xE0)) = .opened ⟨l, h, 1, n / 4096⟩ ∧
      Between l h (n / 64) := by
  have value : (UInt8.ofNat (n / 4096 % 0x10 + 0xE0)).toNat = n / 4096 + 0xE0 := by
    rw [UInt8.toNat_ofNat']
    omega
  simp only [lead, value, Between]
  rw [if_neg (by omega), if_neg (by omega), if_neg (by omega)]
  by_cases first : n / 4096 = 0
  · -- a smaller number would take fewer bytes
    rw [first, if_pos rfl]
    refine ⟨0xA0, 0xBF, rfl, ?_⟩
    simp only [UInt8.toNat_ofNat]
    omega
  rw [if_neg (by omega)]
  by_cases last : n / 4096 = 0xD
  · -- a greater number would be a surrogate
    rw [last, if_pos rfl]
    refine ⟨0x80, 0x9F, rfl, ?_⟩
    simp only [UInt8.toNat_ofNat]
    omega
  · rw [if_neg (by omega), if_pos (by omega), Nat.add_sub_cancel]
    exact ⟨0x80, 0xBF, rfl, between_any _⟩

theorem lead_four {n : Nat} (low : 0x10000 ≤ n) (high : n < 0x110000) :
    ∃ l h, lead (UInt8.ofNat (n / 262144 % 0x08 + 0xF0)) = .opened ⟨l, h, 2, n / 262144⟩ ∧
      Between l h (n / 4096) := by
  have value : (UInt8.ofNat (n / 262144 % 0x08 + 0xF0)).toNat = n / 262144 + 0xF0 := by
    rw [UInt8.toNat_ofNat']
    omega
  simp only [lead, value, Between]
  rw [if_neg (by omega), if_neg (by omega), if_neg (by omega), if_neg (by omega),
    if_neg (by omega), if_neg (by omega)]
  by_cases first : n / 262144 = 0
  · rw [first, if_pos rfl]
    refine ⟨0x90, 0xBF, rfl, ?_⟩
    simp only [UInt8.toNat_ofNat]
    omega
  rw [if_neg (by omega)]
  by_cases last : n / 262144 = 4
  · -- a greater number would be beyond all characters
    rw [last, if_neg (by omega), if_pos rfl]
    refine ⟨0x80, 0x8F, rfl, ?_⟩
    simp only [UInt8.toNat_ofNat]
    omega
  · rw [if_pos (by omega), Nat.add_sub_cancel]
    exact ⟨0x80, 0xBF, rfl, between_any _⟩

/-- The run through the bytes of one character. -/
theorem scan_encodeChar (c : Char) (r : List UInt8) :
    scan none (String.utf8EncodeChar c ++ r) = some c :: scan none r := by
  have valid : c.val.toNat < 0xD800 ∨ 0xDFFF < c.val.toNat ∧ c.val.toNat < 0x110000 := c.valid
  have back : Char.ofNat c.val.toNat = c := Char.ofNat_toNat c
  unfold String.utf8EncodeChar
  generalize c.val.toNat = n at valid back ⊢
  simp only [ofNat_eq_tail]
  split
  · have value : (UInt8.ofNat n).toNat = n := by
      rw [UInt8.toNat_ofNat']
      omega
    rw [List.singleton_append, scan, lead]
    simp only [value]
    rw [if_pos (by omega), back]
  split
  · have bits : n / 64 * 64 + n % 64 = n := by omega
    rw [List.cons_append, List.singleton_append, scan, lead_two (by omega) (by omega)]
    dsimp only
    rw [scan_last (between_any n), bits, back]
  split
  · have bits : (n / 4096 * 64 + n / 64 % 64) * 64 + n % 64 = n := by omega
    obtain ⟨l, h, opened, between⟩ := lead_three (n := n) (by omega) (by omega) (by omega)
    rw [List.cons_append, List.cons_append, List.singleton_append, scan, opened]
    dsimp only
    rw [scan_more between, scan_last (between_any n), bits, back]
  · have bits : ((n / 262144 * 64 + n / 4096 % 64) * 64 + n / 64 % 64) * 64 + n % 64 = n := by
      omega
    obtain ⟨l, h, opened, between⟩ := lead_four (n := n) (by omega) (by omega)
    rw [List.cons_append, List.cons_append, List.cons_append, List.singleton_append, scan, opened]
    dsimp only
    rw [scan_more between, scan_more (between_any _), scan_last (between_any n), bits, back]

/-- Encoded text has no gaps. -/
theorem scan_encode (s : List Char) : scan none (encode s) = s.map some := by
  induction s with
  | nil => rfl
  | cons c s ih => rw [encode, List.flatMap_cons, scan_encodeChar, ← encode, ih, List.map_cons]

theorem decodeLossy_encode (s : List Char) : decodeLossy (encode s) = s := by
  rw [decodeLossy, scan_encode, List.map_map]
  exact List.map_id s

end Utf8

namespace Path

/-- The bytes of the path are those of a text. -/
def IsText (p : Path) : Prop := ∃ s, p = ofString s

theorem chars_ofString (s : String) : (ofString s).chars = s.toList :=
  Utf8.decodeLossy_encode s.toList

theorem text_ofString (s : String) : (ofString s).text = s := by
  rw [text, chars_ofString, String.ofList_toList]

theorem isText_iff {p : Path} : p.IsText ↔ ofString p.text = p := by
  constructor
  · rintro ⟨s, rfl⟩
    rw [text_ofString]
  · intro same
    exact ⟨p.text, same.symm⟩

instance (p : Path) : Decidable p.IsText := decidable_of_iff _ isText_iff.symm

end Path

end LibraryHeaders
