import LibraryHeaders.Json.Number

/-!
# JSON tokens

The words of a JSON text. A text or a number that is not well formed becomes a token too: it keeps
what a reader who wants its value finds wrong, and what a reader who only passes over it finds
wrong. The latter checks the form of escapes and numbers, but neither that surrogates are paired
nor that a number is in range.
-/

namespace LibraryHeaders.Json

inductive Token where
  | null
  | bool (b : Bool)
  | number (value : Except Fault Number)
  | string (value : Except Fault String)
  | broken (wanted skipped : Fault)
  | brokenString (wanted skipped : Fault)
  | openList
  | closeList
  | openObject
  | closeObject
  | comma
  | colon
  | stray

namespace Token

/-- A piece of a written string: a character, or the 16 bits of a numeric escape. -/
inductive Piece where
  | char (c : Char)
  | unit (n : Nat)
  deriving DecidableEq, Repr

/-- How a written string ends. -/
inductive Ending where
  | closed
  | endOfText
  | control
  | badEscape
  | badHex
  deriving DecidableEq, Repr

def hexValue? (c : Char) : Option Nat :=
  if '0' ≤ c ∧ c ≤ '9' then some (c.toNat - '0'.toNat)
  else if 'a' ≤ c ∧ c ≤ 'f' then some (c.toNat - 'a'.toNat + 10)
  else if 'A' ≤ c ∧ c ≤ 'F' then some (c.toNat - 'A'.toNat + 10)
  else none

def hex4? (a b c d : Char) : Option Nat := do
  return (((← hexValue? a) * 16 + (← hexValue? b)) * 16 + (← hexValue? c)) * 16 + (← hexValue? d)

def escaped? : Char → Option Char
  | '"' => some '"'
  | '\\' => some '\\'
  | '/' => some '/'
  | 'b' => some '\x08'
  | 'f' => some '\x0c'
  | 'n' => some '\n'
  | 'r' => some '\r'
  | 't' => some '\t'
  | _ => none

/-- Whether the text still has four bytes. -/
def hasFourBytes (s : List Char) : Bool := 4 ≤ (s.take 4).foldl (fun n c => n + c.utf8Size) 0

/-- The pieces of a string whose opening quote has been read, in reverse order. -/
def scanString : List Piece → List Char → List Piece × Ending × List Char
  | acc, [] => (acc, .endOfText, [])
  | acc, '"' :: s => (acc, .closed, s)
  | acc, '\\' :: 'u' :: a :: b :: c :: d :: s =>
    match hex4? a b c d with
    | some n => scanString (.unit n :: acc) s
    | none => (acc, .badHex, [])
  | acc, '\\' :: 'u' :: s => (acc, if hasFourBytes s then .badHex else .endOfText, [])
  | acc, '\\' :: e :: s =>
    match escaped? e with
    | some c => scanString (.char c :: acc) s
    | none => (acc, .badEscape, [])
  | acc, '\\' :: [] => (acc, .endOfText, [])
  | acc, c :: s => if c.toNat < 0x20 then (acc, .control, []) else scanString (.char c :: acc) s

/-- What a reader who passes over the string finds wrong with its end. -/
def Ending.fault? : Ending → Option Fault
  | .closed => none
  | .endOfText => some .endInString
  | .control => some .controlCharacter
  | .badEscape => some .badEscape
  | .badHex => some .badEscape

/-- What is wrong with the end of the string for the second half of a surrogate pair. -/
def Ending.pairFault : Ending → Fault
  | .endOfText => .endInString
  | .badHex => .badEscape
  | .closed => .unpairedEscape
  | .control => .unpairedEscape
  | .badEscape => .unpairedEscape

/-- The characters of the pieces; two escapes may make up one character. -/
def characters (e : Ending) : List Char → List Piece → Except Fault (List Char)
  | acc, [] =>
    match e.fault? with
    | some f => .error f
    | none => .ok acc.reverse
  | acc, .char c :: s => characters e (c :: acc) s
  | acc, .unit n :: s =>
    if 0xDC00 ≤ n ∧ n ≤ 0xDFFF then .error .loneSurrogate
    else if n < 0xD800 ∨ 0xDFFF < n then characters e (Char.ofNat n :: acc) s
    else match s with
      | [] => .error e.pairFault
      | .char _ :: _ => .error .unpairedEscape
      | .unit m :: s =>
        if m < 0xDC00 ∨ 0xDFFF < m then .error .loneSurrogate
        else characters e (Char.ofNat (0x10000 + (n - 0xD800) * 0x400 + (m - 0xDC00)) :: acc) s

/-- The token of a string whose opening quote has been read, and the text behind it. -/
def ofString (s : List Char) : Token × List Char :=
  let (pieces, ending, rest) := scanString [] s
  let value := (characters ending [] pieces.reverse).map String.ofList
  match ending.fault? with
  | none => (.string value, rest)
  | some skipped =>
    match value with
    | .error wanted => (.brokenString wanted skipped, [])
    | .ok _ => (.brokenString skipped skipped, [])

/-- The token of a number, and the text behind it. -/
def ofNumber (s : List Char) : Token × List Char :=
  match Number.scan s with
  | .literal l rest => (.number l.value, rest)
  | .broken wanted skipped => (.broken wanted skipped, [])

/-- The rest of a word that has to be spelt `word`. -/
def ofWord (t : Token) : List Char → List Char → Token × List Char
  | [], s => (t, s)
  | _ :: _, [] => (.broken .endInValue .endInValue, [])
  | a :: word, c :: s => if a = c then ofWord t word s else (.broken .misspelt .misspelt, [])

def isSpace (c : Char) : Bool := c == ' ' || c == '\n' || c == '\t' || c == '\r'

/-- The token that begins with `c`, and the text behind it. -/
def next (c : Char) (s : List Char) : Token × List Char :=
  match c with
  | '{' => (.openObject, s)
  | '}' => (.closeObject, s)
  | '[' => (.openList, s)
  | ']' => (.closeList, s)
  | ',' => (.comma, s)
  | ':' => (.colon, s)
  | '"' => ofString s
  | 'n' => ofWord .null ['u', 'l', 'l'] s
  | 't' => ofWord (.bool true) ['r', 'u', 'e'] s
  | 'f' => ofWord (.bool false) ['a', 'l', 's', 'e'] s
  | _ => if c = '-' ∨ c.isDigit then ofNumber (c :: s) else (.stray, [])

/-- The tokens of a text, up to the first that is not well formed; `fuel` bounds their number. -/
def scanAll : Nat → List Token → List Char → List Token
  | 0, acc, _ => acc.reverse
  | _ + 1, acc, [] => acc.reverse
  | fuel + 1, acc, c :: s =>
    if isSpace c then scanAll fuel acc s
    else
      let (t, rest) := next c s
      scanAll fuel (t :: acc) rest

/-- The tokens of a text, up to the first that is not well formed. -/
def ofText (s : List Char) : List Token := scanAll (s.length + 1) [] s

end Token

end LibraryHeaders.Json
