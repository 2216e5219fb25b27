/-!
# Blank text

The characters with the Unicode property White_Space, and texts that hold nothing else.
-/

namespace LibraryHeaders

/-- The ranges of White_Space: 25 characters. -/
def blankRanges : List (Nat × Nat) :=
  [(0x9, 0xD), (0x20, 0x20), (0x85, 0x85), (0xA0, 0xA0), (0x1680, 0x1680), (0x2000, 0x200A),
    (0x2028, 0x2029), (0x202F, 0x202F), (0x205F, 0x205F), (0x3000, 0x3000)]

def isBlankChar (c : Char) : Bool :=
  blankRanges.any fun r => r.1 ≤ c.toNat && c.toNat ≤ r.2

def isBlank (s : String) : Bool := s.toList.all isBlankChar

end LibraryHeaders
