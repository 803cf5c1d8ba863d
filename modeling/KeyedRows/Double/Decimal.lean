/-
# Decimal text of a double

The text of a finite double has the fewest digits that read back as the same
double; among those, the digits nearest to its value, an exact tie going away
from zero. It is always positional: there is no exponent, a whole number has no
point, and a fraction has a digit before the point. The sign of zero is shown,
the infinities are `inf` and `-inf`, and a NaN is `NaN` whatever its sign.

A magnitude stands for `m * 2 ^ q`. The reals that round to it form an interval
around that value whose ends belong to it when `m` is even. Everything is
scaled to whole numbers over one denominator and searched in exact arithmetic:
for one digit, two digits, … the two neighbours of the value on that decimal
grid are tested, and the first grid with a neighbour inside wins.
-/

import KeyedRows.Double.Basic

namespace KeyedRows
namespace Double

/-- A positive number as a fraction, with the interval of reals that round to it: its value is
`value / unit`, and `low / unit` and `high / unit` are the ends of the interval. -/
structure Span where
  low : Nat
  value : Nat
  high : Nat
  unit : Nat
  /-- The ends themselves round to the value. -/
  closed : Bool

/-- The interval of a magnitude below infinity. Below a power of two the neighbours stand only
half as far apart as above it. -/
def span (magnitude : Nat) : Span :=
  let field := magnitude / binade
  let low := magnitude % binade
  -- the value is `m * 2 ^ (e - 1075)`, with the exponent of the smallest numbers shared
  let m := if field = 0 then low else binade + low
  let e := if field = 0 then 1 else field
  let below := if low = 0 ∧ 1 < field then 1 else 2
  let scale := e - 1075
  { low := (4 * m - below) <<< scale
    value := (4 * m) <<< scale
    high := (4 * m + 2) <<< scale
    unit := 4 <<< (1075 - e)
    closed := m % 2 = 0 }

/-- A whole number of units of `10 ^ exponent`. -/
structure Decimal where
  digits : Nat
  exponent : Int
deriving DecidableEq, Repr

/-- A number with `k` zeros put behind its digits. -/
def withZeros (n : Nat) : (k : Nat) → Nat
  | 0 => n
  | k + 1 => withZeros (10 * n) k

/-- `num / den * 10 ^ -k` as a fraction. -/
def rescale (num den : Nat) (k : Int) : Nat × Nat :=
  if k < 0 then (withZeros num (-k).toNat, den) else (num, withZeros den k.toNat)

/-- The digits lie inside the interval, on the grid of `10 ^ k`. -/
def Span.contains (s : Span) (digits : Nat) (k : Int) : Bool :=
  let (low, lowUnit) := rescale s.low s.unit k
  let (high, highUnit) := rescale s.high s.unit k
  if s.closed then low ≤ digits * lowUnit && digits * highUnit ≤ high
  else low < digits * lowUnit && digits * highUnit < high

/-- The neighbour of the value on the grid of `10 ^ k` that lies inside the interval; of two such
neighbours the nearer, and the upper one if they are equally near. -/
def Span.onGrid (s : Span) (k : Int) : Option Decimal :=
  let (num, den) := rescale s.value s.unit k
  let below := num / den
  let above := below + 1
  let upper := den ≤ 2 * (num % den)
  match s.contains below k && below != 0, s.contains above k with
  | true, true => some ⟨if upper then above else below, k⟩
  | true, false => some ⟨below, k⟩
  | false, true => some ⟨above, k⟩
  | false, false => none

/-- How many zeros stand between the point and the first digit of `num / den`, at most `limit`. -/
def zerosBehindPoint (num den : Nat) : (limit : Nat) → Nat
  | 0 => 0
  | limit + 1 => if 10 * num < den then zerosBehindPoint (10 * num) den limit + 1 else 0

/-- The least `n` with `value / unit < 10 ^ n`, between `-400` and `400`. -/
def Span.leading (s : Span) : Int :=
  let whole := s.value / s.unit
  if whole = 0 then Int.negOfNat (zerosBehindPoint s.value s.unit 400)
  else (Nat.toDigits 10 whole).length

/-- The shortest digits that lie inside the interval. -/
def Span.shortest (s : Span) : Decimal :=
  let top := s.leading
  ((List.range 17).findSome? fun n => s.onGrid (top - (n + 1 : Nat))).getD
    ⟨s.value / s.unit, 0⟩

/-- Drops zeros at the end of the digits while they stand behind the point. -/
def Decimal.trim (digits : Nat) : Nat → Nat × Nat
  | 0 => (digits, 0)
  | places + 1 => if digits % 10 = 0 then trim (digits / 10) places else (digits, places + 1)

/-- Positional text. -/
def Decimal.text (d : Decimal) : String :=
  if 0 ≤ d.exponent then toString (withZeros d.digits d.exponent.toNat)
  else
    let (digits, places) := Decimal.trim d.digits (-d.exponent).toNat
    if places = 0 then toString digits
    else
      let cs := Nat.toDigits 10 digits
      let cs := List.replicate (places + 1 - cs.length) '0' ++ cs
      String.ofList (cs.take (cs.length - places) ++ '.' :: cs.drop (cs.length - places))

/-- The text of a double. -/
def text (x : Double) : String :=
  if x.isNaN then "NaN"
  else
    let sign := if x.isNegative then "-" else ""
    if x.magnitude = infinity then sign ++ "inf"
    else if x.magnitude = 0 then sign ++ "0"
    else sign ++ (span x.magnitude).shortest.text

end Double
end KeyedRows
