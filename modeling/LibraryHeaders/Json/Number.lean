import LibraryHeaders.Decimal.Shortest
import LibraryHeaders.Json.Fault

/-!
# JSON numbers

A whole number that fits 64 bits, signed or unsigned, is kept as it is. Any other number is held
in double precision: the leading digits that fit 64 bits, scaled by one power of ten. A number too
large for a double is out of range.
-/

namespace LibraryHeaders.Json

inductive Number where
  | integer (value : Int)
  | real (value : Decimal)
  deriving DecidableEq, Repr

namespace Number

/-- The parts of a written number. -/
structure Literal where
  negative : Bool
  whole : List Char
  fraction : Option (List Char)
  exponent : Option (Bool × List Char)
  deriving DecidableEq, Repr

/-- A scanned number, or what is wrong with it where its value is wanted (`wanted`) and where it
is only passed over (`skipped`). -/
inductive Scan where
  | literal (l : Literal) (rest : List Char)
  | broken (wanted skipped : Fault)

def digits (s : List Char) : List Char × List Char := (s.takeWhile Char.isDigit, s.dropWhile Char.isDigit)

/-- Digits have to stand here; at the end of the text their absence is an early end for a reader
who wants the value. -/
def missingDigits (s : List Char) : Scan :=
  .broken (if s.isEmpty then .endInValue else .badNumber) .badNumber

def scanExponent (negative : Bool) (whole : List Char) (fraction : Option (List Char)) :
    List Char → Scan
  | c :: s =>
    if c = 'e' ∨ c = 'E' then
      let (positive, s) := match s with
        | '+' :: s => (true, s)
        | '-' :: s => (false, s)
        | s => (true, s)
      match digits s with
      | ([], _) => missingDigits s
      | (ds, rest) => .literal ⟨negative, whole, fraction, some (positive, ds)⟩ rest
    else .literal ⟨negative, whole, fraction, none⟩ (c :: s)
  | [] => .literal ⟨negative, whole, fraction, none⟩ []

def scanFraction (negative : Bool) (whole : List Char) : List Char → Scan
  | '.' :: s =>
    match digits s with
    | ([], _) => missingDigits s
    | (ds, rest) => scanExponent negative whole (some ds) rest
  | s => scanExponent negative whole none s

/-- Scans a number whose sign has been read. -/
def scanUnsigned (negative : Bool) (s : List Char) : Scan :=
  match digits s with
  | ([], _) => missingDigits s
  | ('0' :: _ :: _, _) => .broken .badNumber .badNumber
  | (ds, rest) => scanFraction negative ds rest

/-- Scans a number that begins with a sign or a digit. -/
def scan : List Char → Scan
  | '-' :: s => scanUnsigned true s
  | s => scanUnsigned false s

/-- The largest whole number that fits 64 bits. -/
def largest : Nat := 0xFFFFFFFFFFFFFFFF

/-- The least negative integer that fits 64 bits, without its sign. -/
def largestNegative : Nat := 0x8000000000000000

def digitValue (c : Char) : Nat := c.toNat - '0'.toNat

/-- The leading digits of a whole part that fit 64 bits, and how many digits follow them. -/
def fitWhole : Nat → List Char → Nat × Nat
  | n, [] => (n, 0)
  | n, c :: s =>
    let next := n * 10 + digitValue c
    if largest < next then (n, (c :: s).length) else fitWhole next s

/-- Continues with the digits of a fraction while they fit, and counts them. -/
def fitFraction : Nat → List Char → Nat × Nat
  | n, [] => (n, 0)
  | n, c :: s =>
    let next := n * 10 + digitValue c
    if largest < next then (n, 0)
    else
      let (m, k) := fitFraction next s
      (m, k + 1)

def toNat (ds : List Char) : Nat := ds.foldl (fun n c => n * 10 + digitValue c) 0

def power (k : Nat) : Float := Float.ofScientific 1 false k

/-- `n * 10 ^ e` in double precision, if it is finite. -/
def scale (n : Nat) (e : Int) : Option Float :=
  let x := Float.ofScientific n false 0
  if 0 ≤ e then
    if e ≤ 308 then
      let y := x * power e.toNat
      if y.isInf then none else some y
    else if n = 0 then some 0 else none
  else if -308 ≤ e then some (x / power (-e).toNat)
  else if -616 ≤ e then some (x / power 308 / power (-e - 308).toNat)
  else some 0

def realOf (negative : Bool) (x : Float) : Number := .real { Decimal.shortest x with negative }

/-- The largest exponent that is read as a number; a larger one only tells zero from infinity. -/
def largestExponent : Nat := 0x7FFFFFFF

/-- `n * 10 ^ start` with a written exponent. -/
def applyExponent (negative : Bool) (n : Nat) (start : Int) :
    Option (Bool × List Char) → Except Fault Number
  | none => ofParts start
  | some (positive, ds) =>
    let e := toNat ds
    if largestExponent < e then
      if n ≠ 0 ∧ positive then .error .numberOutOfRange else .ok (realOf negative 0)
    else ofParts (if positive then start + e else start - e)
where
  ofParts (e : Int) : Except Fault Number :=
    match scale n e with
    | some x => .ok (realOf negative x)
    | none => .error .numberOutOfRange

/-- The value of a written number. -/
def Literal.value (l : Literal) : Except Fault Number :=
  let (n, beyond) := fitWhole 0 l.whole
  match l.fraction, l.exponent with
  | none, none =>
    if beyond ≠ 0 then applyExponent l.negative n beyond none
    else if !l.negative then .ok (.integer n)
    else if n = 0 ∨ largestNegative < n then .ok (realOf true (Float.ofScientific n false 0))
    else .ok (.integer (-n))
  | some ds, e =>
    let (m, places) := fitFraction n ds
    applyExponent l.negative m ((beyond : Int) - places) e
  | none, e => applyExponent l.negative n beyond e

/-- How a number in double precision is written. -/
def style : Decimal.Style := ⟨-5, 15⟩

end Number

end LibraryHeaders.Json
