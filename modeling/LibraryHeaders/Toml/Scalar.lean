import LibraryHeaders.Datum

/-!
# TOML scalars

Keys, strings, numbers, and dates and times, as TOML 1.0 writes them. A reader takes something off
the front of a text and answers what it read and what follows; it answers nothing where the text
does not begin with it.
-/

namespace LibraryHeaders.Toml

abbrev Reader (α : Type) := List Char → Option (α × List Char)

def isSpace (c : Char) : Bool := c == ' ' || c == '\t'

def skipSpace (s : List Char) : List Char := s.dropWhile isSpace

/-- What follows a line break. -/
def lineBreak? : List Char → Option (List Char)
  | '\n' :: s => some s
  | '\r' :: '\n' :: s => some s
  | _ => none

/-- What may stand in a comment, and between the quotes of a literal text but for its quote. -/
def isPlain (c : Char) : Bool := c == '\t' || (0x20 ≤ c.toNat && c.toNat != 0x7F)

/-- Passes over a comment, if one stands here. -/
def skipComment : List Char → List Char
  | '#' :: s => s.dropWhile isPlain
  | s => s

/-- Passes over the rest of a line that holds nothing more than a comment. -/
def endOfLine? (s : List Char) : Option (List Char) :=
  match skipComment (skipSpace s) with
  | [] => some []
  | s => lineBreak? s

/-! ## Strings -/

def hexValue? (c : Char) : Option Nat := Json.Token.hexValue? c

/-- A number of exactly `n` hexadecimal digits. -/
def hexNumber : Nat → Nat → Reader Nat
  | 0, value, s => some (value, s)
  | _ + 1, _, [] => none
  | n + 1, value, c :: s => (hexValue? c).bind fun d => hexNumber n (value * 16 + d) s

/-- The character with a code of exactly `n` hexadecimal digits. -/
def coded (n : Nat) (s : List Char) : Option (Char × List Char) := do
  let (code, rest) ← hexNumber n 0 s
  if code.isValidChar then return (Char.ofNat code, rest) else none

/-- The character of an escape whose backslash has been read. -/
def escape : Reader Char
  | 'b' :: s => some ('\x08', s)
  | 't' :: s => some ('\t', s)
  | 'n' :: s => some ('\n', s)
  | 'f' :: s => some ('\x0c', s)
  | 'r' :: s => some ('\r', s)
  | '"' :: s => some ('"', s)
  | '\\' :: s => some ('\\', s)
  | 'u' :: s => coded 4 s
  | 'U' :: s => coded 8 s
  | _ => none

/-- The rest of a string on one line, with escapes. -/
def basicRest : Nat → List Char → Reader (List Char)
  | 0, _, _ => none
  | _ + 1, _, [] => none
  | fuel + 1, acc, c :: s =>
    if c = '"' then some (acc.reverse, s)
    else if c = '\\' then (escape s).bind fun (e, s) => basicRest fuel (e :: acc) s
    else if isPlain c then basicRest fuel (c :: acc) s
    else none

/-- The rest of a string on one line, without escapes. -/
def literalRest (s : List Char) : Option (List Char × List Char) :=
  let body := s.takeWhile fun c => c != '\'' && isPlain c
  match s.drop body.length with
  | '\'' :: rest => some (body, rest)
  | _ => none

/-- Blanks and line breaks behind a backslash that ends a line. -/
def skipBreaks : Nat → List Char → List Char
  | 0, s => s
  | fuel + 1, s =>
    let s := skipSpace s
    match lineBreak? s with
    | some s => skipBreaks fuel s
    | none => s

/-- How many of a run of quotes at the end of a long string belong to it: three close the string, and
up to two may stand before them. -/
def quotesInside (run : Nat) : Nat := min run 5 - 3

/-- The rest of a string over several lines. `quote` closes it, and `escapes` tells whether a
backslash has a meaning. -/
def longRest (quote : Char) (escapes : Bool) : Nat → List Char → Reader (List Char)
  | 0, _, _ => none
  | _ + 1, _, [] => none
  | fuel + 1, acc, c :: s =>
    if c = quote then
      let run := ((c :: s).takeWhile (· == quote)).length
      if run < 3 then longRest quote escapes fuel (List.replicate run quote ++ acc) ((c :: s).drop run)
      else
        let inside := quotesInside run
        some ((List.replicate inside quote ++ acc).reverse, (c :: s).drop (inside + 3))
    else if escapes && c == '\\' then
      match escape s with
      | some (e, s) => longRest quote escapes fuel (e :: acc) s
      | none =>
        match lineBreak? (skipSpace s) with
        | some s => longRest quote escapes fuel acc (skipBreaks (s.length + 1) s)
        | none => none
    else match lineBreak? (c :: s) with
      | some s => longRest quote escapes fuel ('\n' :: acc) s
      | none => if isPlain c then longRest quote escapes fuel (c :: acc) s else none

/-- Drops one line break at the start of a long string. -/
def dropBreak (s : List Char) : List Char := (lineBreak? s).getD s

/-- A string on one line. -/
def shortString : Reader (List Char)
  | '"' :: s => basicRest (s.length + 1) [] s
  | '\'' :: s => literalRest s
  | _ => none

def string : Reader (List Char)
  | '"' :: '"' :: '"' :: s => longRest '"' true (s.length + 1) [] (dropBreak s)
  | '\'' :: '\'' :: '\'' :: s => longRest '\'' false (s.length + 1) [] (dropBreak s)
  | s => shortString s

/-! ## Keys -/

def isBare (c : Char) : Bool := c.isAlphanum || c == '-' || c == '_'

def simpleKey (s : List Char) : Option (String × List Char) :=
  match shortString s with
  | some (k, rest) => some (String.ofList k, rest)
  | none =>
    let k := s.takeWhile isBare
    if k.isEmpty then none else some (String.ofList k, s.drop k.length)

/-- Keys joined by dots; blanks may stand around each. -/
def dottedKey : Nat → Reader (List String)
  | 0, _ => none
  | fuel + 1, s => do
    let (k, rest) ← simpleKey (skipSpace s)
    match skipSpace rest with
    | '.' :: rest => (dottedKey fuel rest).map fun (ks, rest) => (k :: ks, rest)
    | rest => return ([k], rest)

/-- The greatest depth of nested tables and lists, and one more than the most joined keys. -/
def depthLimit : Nat := 80

/-- A key, with its parts before the last one and the last one. -/
def key (s : List Char) : Option ((List String × String) × List Char) := do
  let (ks, rest) ← dottedKey (s.length + 1) s
  let last ← ks.getLast?
  if ks.length < depthLimit then return ((ks.dropLast, last), rest) else none

/-! ## Numbers -/

/-- Digits with single underscores between them. -/
def digitRun (isDigit : Char → Bool) : Nat → List Char → Reader (List Char)
  | 0, _, _ => none
  | _ + 1, acc, [] => if acc.isEmpty then none else some (acc.reverse, [])
  | fuel + 1, acc, c :: s =>
    if isDigit c then digitRun isDigit fuel (c :: acc) s
    else if acc.isEmpty then none
    else match c, s with
      | '_', d :: s => if isDigit d then digitRun isDigit fuel (d :: acc) s else none
      | _, _ => some (acc.reverse, c :: s)

def digits (isDigit : Char → Bool) (s : List Char) : Option (List Char × List Char) :=
  digitRun isDigit (s.length + 1) [] s

/-- A sign, if one stands here; `true` for minus. -/
def sign : List Char → Bool × List Char
  | '-' :: s => (true, s)
  | '+' :: s => (false, s)
  | s => (false, s)

/-- Decimal digits that do not begin with a superfluous zero. -/
def decimalDigits : Reader (List Char)
  | '0' :: s => some (['0'], s)
  | s => digits Char.isDigit s

def valueIn (base : Nat) (ds : List Char) : Nat :=
  ds.foldl (fun n c => n * base + (hexValue? c).getD 0) 0

/-- A whole number that fits 64 bits with a sign. -/
def fit (negative : Bool) (n : Nat) : Option Int :=
  if negative then if n ≤ Json.Number.largestNegative then some (-(n : Int)) else none
  else if n < Json.Number.largestNegative then some n else none

def inBase (base : Nat) (isDigit : Char → Bool) (s : List Char) : Option (Datum × List Char) := do
  let (ds, rest) ← digits isDigit s
  let n ← fit false (valueIn base ds)
  return (.integer n, rest)

def integer : Reader Datum
  | '0' :: 'x' :: s => inBase 16 (fun c => (hexValue? c).isSome) s
  | '0' :: 'o' :: s => inBase 8 (fun c => '0' ≤ c && c ≤ '7') s
  | '0' :: 'b' :: s => inBase 2 (fun c => c == '0' || c == '1') s
  | s => do
    let (negative, s) := sign s
    let (ds, rest) ← decimalDigits s
    let n ← fit negative (valueIn 10 ds)
    return (.integer n, rest)

def fraction : Reader (List Char)
  | '.' :: s => digits Char.isDigit s
  | _ => none

def exponent : Reader Int
  | c :: s =>
    if c = 'e' ∨ c = 'E' then do
      let (negative, s) := sign s
      let (ds, rest) ← digits Char.isDigit s
      let n : Int := valueIn 10 ds
      return (if negative then -n else n, rest)
    else none
  | [] => none

/-- The double nearest to `n * 10 ^ e`. -/
def nearest (n : Nat) (e : Int) : Float :=
  let size : Int := Int.ofNat (Nat.toDigits 10 n).length + e
  if n = 0 ∨ size < -400 then 0
  else if 400 < size then 1 / 0
  else Float.ofScientific n (e < 0) e.natAbs

/-- A finite double, written positionally. -/
def writeReal (negative : Bool) (x : Float) : String :=
  let d := Decimal.shortest x
  String.ofList (if negative then '-' :: d.positional else d.positional)

/-- A number too large for a double is refused if it is positive. -/
def ofReal (negative : Bool) (x : Float) : Option Datum :=
  if x.isInf then if negative then some (.real "-inf") else none
  else some (.real (writeReal negative x))

def specialReal (s : List Char) : Option (Datum × List Char) :=
  let (negative, s) := sign s
  match s with
  | 'i' :: 'n' :: 'f' :: rest => some (.real (if negative then "-inf" else "inf"), rest)
  | 'n' :: 'a' :: 'n' :: rest => some (.real "NaN", rest)
  | _ => none

def plainReal (s : List Char) : Option (Datum × List Char) := do
  let (negative, s) := sign s
  let (whole, s) ← decimalDigits s
  let (places, e, rest) ← match fraction s with
    | some (fs, s) =>
      match exponent s with
      | some (e, rest) => some (fs, e, rest)
      | none =>
        match s with
        | 'e' :: _ => none
        | 'E' :: _ => none
        | _ => some (fs, 0, s)
    | none => (exponent s).map fun (e, rest) => ([], e, rest)
  let n := valueIn 10 (whole ++ places)
  let d ← ofReal negative (nearest n (e - Int.ofNat places.length))
  return (d, rest)

/-! ## Dates and times -/

/-- A number of exactly `n` decimal digits. -/
def fixedDigits (n : Nat) (s : List Char) : Option (Nat × List Char) :=
  let ds := s.take n
  if ds.length = n ∧ ds.all Char.isDigit then some (valueIn 10 ds, s.drop n) else none

def mark (c : Char) : List Char → Option (List Char)
  | d :: s => if c = d then some s else none
  | [] => none

def daysIn (year month : Nat) : Nat :=
  if month = 2 then
    if year % 4 = 0 ∧ (year % 100 ≠ 0 ∨ year % 400 = 0) then 29 else 28
  else if month = 4 ∨ month = 6 ∨ month = 9 ∨ month = 11 then 30
  else 31

def date (s : List Char) : Option (List Char) := do
  let (year, s) ← fixedDigits 4 s
  let s ← mark '-' s
  let (month, s) ← fixedDigits 2 s
  let s ← mark '-' s
  let (day, s) ← fixedDigits 2 s
  if 1 ≤ month ∧ month ≤ 12 ∧ 1 ≤ day ∧ day ≤ daysIn year month then return s else none

def hourAndMinute (s : List Char) : Option (List Char) := do
  let (hour, s) ← fixedDigits 2 s
  let s ← mark ':' s
  let (minute, s) ← fixedDigits 2 s
  if hour ≤ 23 ∧ minute ≤ 59 then return s else none

def time (s : List Char) : Option (List Char) := do
  let s ← hourAndMinute s
  let s ← mark ':' s
  let (second, s) ← fixedDigits 2 s
  if 60 < second then none
  else match s with
    | '.' :: c :: rest => if c.isDigit then return rest.dropWhile Char.isDigit else return s
    | s => return s

def offset : List Char → List Char
  | 'Z' :: s => s
  | 'z' :: s => s
  | '+' :: s => (hourAndMinute s).getD ('+' :: s)
  | '-' :: s => (hourAndMinute s).getD ('-' :: s)
  | s => s

/-- What follows a date, a time, or both. -/
def dateTime (s : List Char) : Option (List Char) :=
  match date s with
  | some rest =>
    match rest with
    | c :: more =>
      if c = 'T' ∨ c = 't' ∨ c = ' ' then
        match time more with
        | some rest => some (offset rest)
        | none => some rest
      else some rest
    | [] => some []
  | none => time s

/-- A date or a time is a table with one private key. -/
def dateTimeDatum : Datum := .table [("$__toml_private_datetime", .string "")]

/-- A value that begins with a sign or a digit. -/
def numberOrDate (s : List Char) : Option (Datum × List Char) :=
  match dateTime s with
  | some rest => some (dateTimeDatum, rest)
  | none =>
    match plainReal s with
    | some r => some r
    | none =>
      match specialReal s with
      | some r => some r
      | none => integer s

/-- A word that stands for a value. -/
def word : List Char → Option (Datum × List Char)
  | 't' :: 'r' :: 'u' :: 'e' :: s => some (.bool true, s)
  | 'f' :: 'a' :: 'l' :: 's' :: 'e' :: s => some (.bool false, s)
  | s => specialReal s

end LibraryHeaders.Toml
