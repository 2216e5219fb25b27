/-!
# Shortest decimals of double precision numbers

A finite double is `m * 2 ^ q` for whole numbers `m` and `q`. The reals that round to it form an
interval, closed if `m` is even. `Decimal.shortest` takes the coarsest decimal grid, of one to
seventeen digits, on which one of the two neighbours of the value lies in that interval, and of
two such neighbours the nearer one.
-/

namespace LibraryHeaders

/-- The number `digits * 10 ^ exponent`, with a sign that zero keeps. -/
structure Decimal where
  negative : Bool
  digits : Nat
  exponent : Int
  deriving DecidableEq, Repr, Inhabited

namespace Decimal

/-- A positive fraction. -/
structure Ratio where
  num : Nat
  den : Nat

namespace Ratio

/-- `n * 2 ^ q`. -/
def binary (n : Nat) (q : Int) : Ratio :=
  if 0 ≤ q then ⟨n * Nat.pow 2 q.toNat, 1⟩ else ⟨n, Nat.pow 2 (-q).toNat⟩

/-- `n * 10 ^ k`. -/
def decimal (n : Nat) (k : Int) : Ratio :=
  if 0 ≤ k then ⟨n * Nat.pow 10 k.toNat, 1⟩ else ⟨n, Nat.pow 10 (-k).toNat⟩

def le (a b : Ratio) : Bool := a.num * b.den ≤ b.num * a.den

def lt (a b : Ratio) : Bool := a.num * b.den < b.num * a.den

/-- The whole part of `a / b`. -/
def floorDiv (a b : Ratio) : Nat := (a.num * b.den) / (a.den * b.num)

/-- The `k` with `10 ^ k ≤ a < 10 ^ (k + 1)`, for positive `a`. -/
def log10 (a : Ratio) : Int :=
  if a.den ≤ a.num then ((Nat.toDigits 10 (a.num / a.den)).length : Int) - 1
  else
    let d := (Nat.toDigits 10 (a.den / a.num)).length
    if a.den ≤ a.num * Nat.pow 10 (d - 1) then -((d : Int) - 1) else -(d : Int)

end Ratio

/-- The reals between `low` and `high`, with or without the two ends. -/
structure Interval where
  low : Ratio
  high : Ratio
  closed : Bool

namespace Interval

def contains (i : Interval) (x : Ratio) : Bool :=
  if i.closed then i.low.le x && x.le i.high else i.low.lt x && x.lt i.high

/-- The reals that round to `m * 2 ^ q`; below a power of two the doubles lie twice as dense. -/
def around (m : Nat) (q : Int) (power : Bool) : Interval :=
  ⟨Ratio.binary (if power then 4 * m - 1 else 4 * m - 2) (q - 2), Ratio.binary (4 * m + 2) (q - 2),
    m % 2 = 0⟩

end Interval

/-- The neighbour of `v` on the grid of multiples of `10 ^ k` that lies in `i`, if one does. -/
def onGrid? (v : Ratio) (i : Interval) (k : Int) : Option Nat :=
  let below := v.floorDiv (Ratio.decimal 1 k)
  let above := below + 1
  match i.contains (Ratio.decimal below k), i.contains (Ratio.decimal above k) with
  | false, false => none
  | true, false => some below
  | false, true => some above
  | true, true =>
    if (Ratio.decimal (2 * below + 1) k).lt ⟨2 * v.num, v.den⟩ then some above else some below

/-- Takes off trailing zeros. -/
def normalize (negative : Bool) : Nat → Nat → Int → Decimal
  | 0, n, k => ⟨negative, n, k⟩
  | fuel + 1, n, k =>
    if n ≠ 0 ∧ n % 10 = 0 then normalize negative fuel (n / 10) (k + 1) else ⟨negative, n, k⟩

/-- The shortest decimal that rounds to `m * 2 ^ q`, for `m` positive. -/
def shortestOf (negative : Bool) (m : Nat) (q : Int) (power : Bool) : Decimal :=
  let v := Ratio.binary m q
  let i := Interval.around m q power
  let top := v.log10
  let hit := (List.range 17).findSome? fun (d : Nat) =>
    let k := top - Int.ofNat d
    (onGrid? v i k).map (·, k)
  match hit with
  | some (n, k) => normalize negative 400 n k
  | none => ⟨negative, m, q⟩

/-- The leading bit of a double, which is not stored. -/
def hiddenBit : Nat := 0x10000000000000

/-- The shortest decimal that reads back as a finite double. -/
def shortest (x : Float) : Decimal :=
  let bits := x.toBits.toNat
  let negative := bits >>> 63 = 1
  let biased : Nat := (bits >>> 52) % 0x800
  let fraction := bits % hiddenBit
  if biased = 0 then
    if fraction = 0 then ⟨negative, 0, 0⟩ else shortestOf negative fraction (-1074) false
  else
    shortestOf negative (fraction + hiddenBit) (Int.ofNat biased - 1075) (fraction = 0 && biased ≠ 1)

/-- How a decimal is written: positionally while the exponent of its first digit lies between
`least` and `greatest`, otherwise with an exponent that carries its sign. -/
structure Style where
  least : Int
  greatest : Int

/-- The exponent of the first digit. -/
def leading (d : Decimal) : Int :=
  if d.digits = 0 then 0 else d.exponent + ((Nat.toDigits 10 d.digits).length : Int) - 1

/-- Positional notation; a whole number keeps one zero behind the point. -/
def positional (d : Decimal) : List Char :=
  let ds := Nat.toDigits 10 d.digits
  if 0 ≤ d.exponent then
    (if d.digits = 0 then ['0'] else ds ++ List.replicate d.exponent.toNat '0') ++ ['.', '0']
  else
    let places := (-d.exponent).toNat
    if places < ds.length then ds.take (ds.length - places) ++ '.' :: ds.drop (ds.length - places)
    else '0' :: '.' :: (List.replicate (places - ds.length) '0' ++ ds)

/-- One digit before the point, and the exponent with its sign. -/
def scientific (d : Decimal) : List Char :=
  let e := d.leading
  let mantissa := match Nat.toDigits 10 d.digits with
    | [] => []
    | [c] => [c]
    | c :: rest => c :: '.' :: rest
  mantissa ++ 'e' :: (if 0 ≤ e then '+' else '-') :: Nat.toDigits 10 e.natAbs

def render (style : Style) (d : Decimal) : String :=
  let body :=
    if style.least ≤ d.leading ∧ d.leading ≤ style.greatest then d.positional else d.scientific
  String.ofList (if d.negative then '-' :: body else body)

end Decimal

end LibraryHeaders
