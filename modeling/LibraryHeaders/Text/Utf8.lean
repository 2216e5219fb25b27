/-!
# UTF-8

Bytes of a text and the text of bytes. `Utf8.scan` splits any byte sequence into characters and
gaps: a gap stands for a longest sequence of bytes that begins a character but does not complete
it, or for a byte that begins none. The strict reading refuses gaps, the lossy one shows each of
them as U+FFFD.
-/

namespace LibraryHeaders.Utf8

def encode (s : List Char) : List UInt8 := s.flatMap String.utf8EncodeChar

/-- A character that has begun: the next byte has to lie between `low` and `high`, `owed` more
continuation bytes follow it, and `bits` collects the bits read so far. -/
structure Opened where
  low : UInt8
  high : UInt8
  owed : Nat
  bits : Nat
  deriving DecidableEq, Repr

/-- What a byte in front of a character announces. -/
inductive Lead where
  | complete (c : Char)
  | opened (o : Opened)
  | gap
  deriving DecidableEq, Repr

def lead (b : UInt8) : Lead :=
  let n := b.toNat
  if n < 0x80 then .complete (Char.ofNat n)
  else if n < 0xC2 then .gap
  else if n < 0xE0 then .opened ⟨0x80, 0xBF, 0, n - 0xC0⟩
  else if n = 0xE0 then .opened ⟨0xA0, 0xBF, 1, 0⟩
  else if n = 0xED then .opened ⟨0x80, 0x9F, 1, 0xD⟩
  else if n < 0xF0 then .opened ⟨0x80, 0xBF, 1, n - 0xE0⟩
  else if n = 0xF0 then .opened ⟨0x90, 0xBF, 2, 0⟩
  else if n < 0xF4 then .opened ⟨0x80, 0xBF, 2, n - 0xF0⟩
  else if n = 0xF4 then .opened ⟨0x80, 0x8F, 2, 4⟩
  else .gap

/-- The characters of a byte sequence, with `none` for a gap. -/
def scan : Option Opened → List UInt8 → List (Option Char)
  | none, [] => []
  | some _, [] => [none]
  | none, b :: r =>
    match lead b with
    | .complete c => some c :: scan none r
    | .opened o => scan (some o) r
    | .gap => none :: scan none r
  | some o, b :: r =>
    if o.low ≤ b ∧ b ≤ o.high then
      let bits := o.bits * 64 + (b.toNat - 0x80)
      match o.owed with
      | 0 => some (Char.ofNat bits) :: scan none r
      | owed + 1 => scan (some ⟨0x80, 0xBF, owed, bits⟩) r
    else
      none :: match lead b with
        | .complete c => some c :: scan none r
        | .opened o => scan (some o) r
        | .gap => none :: scan none r

/-- The text of a byte sequence, if it has no gap. -/
def decode? (bytes : List UInt8) : Option (List Char) := (scan none bytes).mapM id

/-- The text of a byte sequence, every gap shown as U+FFFD. -/
def decodeLossy (bytes : List UInt8) : List Char :=
  (scan none bytes).map (·.getD (Char.ofNat 0xFFFD))

end LibraryHeaders.Utf8
