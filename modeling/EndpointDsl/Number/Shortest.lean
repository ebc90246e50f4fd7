import EndpointDsl.Number.Binary64

/-!
The shortest decimal that reads back as a given number.

A decimal reads back when it lies in the interval of reals that round to the number; the ends of
the interval belong to it when the mantissa is even.  For one digit, two digits and so on, the two
neighbours of the number on the decimal grid are tried, and the first grid with a hit decides; of
two hits the nearer is taken.
-/

namespace EndpointDsl
namespace Binary64

/-- The decimal `digits * 10 ^ exponent`. -/
structure Decimal where
  digits : Nat
  exponent : Int
  deriving DecidableEq, Repr

/-- A number and the ends of the interval that rounds to it, over one denominator. -/
structure Interval where
  low : Nat
  value : Nat
  high : Nat
  denominator : Nat
  closed : Bool

def interval (m : Nat) (q : Int) : Interval :=
  -- The gap below a power of two is half the gap above it.
  let below := if m = power 2 52 ∧ minExponent < q then 1 else 2
  let scale := power 2 (q - 2).toNat
  { low := (4 * m - below) * scale
    value := 4 * m * scale
    high := (4 * m + 2) * scale
    denominator := power 2 (2 - q).toNat
    closed := m % 2 == 0 }

namespace Interval

/-- Whether `c * 10 ^ e` lies in the interval. -/
def holds (i : Interval) (c : Nat) (e : Int) : Bool :=
  let x := c * power 10 e.toNat * i.denominator
  let low := i.low * power 10 (-e).toNat
  let high := i.high * power 10 (-e).toNat
  if i.closed then decide (low ≤ x) && decide (x ≤ high) else decide (low < x) && decide (x < high)

/-- Twice the part of the value that lies above `c * 10 ^ e`, in units of the grid, compared with
one unit. -/
def aboveHalf (i : Interval) (c : Nat) (e : Int) : Ordering :=
  let unit := power 10 e.toNat * i.denominator
  compare (2 * (i.value * power 10 (-e).toNat - c * unit)) unit

/-- The number of digits before the decimal point; zero or negative below one tenth. -/
def point (i : Interval) : Int :=
  if i.denominator ≤ i.value then (toString (i.value / i.denominator)).length
  else
    let d := (toString (i.denominator / i.value)).length
    if i.denominator ≤ i.value * power 10 (d - 1) then 2 - (d : Int) else 1 - (d : Int)

/-- The decimal of `n` digits that lies in the interval, if one does. -/
def onGrid? (i : Interval) (n : Nat) : Option Decimal :=
  let e := i.point - n
  let c := i.value * power 10 (-e).toNat / (power 10 e.toNat * i.denominator)
  let lower := i.holds c e
  let upper := i.holds (c + 1) e
  let nearer := match i.aboveHalf c e with
    | .lt => c
    | .gt => c + 1
    | .eq => if c % 2 = 0 then c else c + 1
  if lower && upper then some ⟨nearer, e⟩
  else if lower then some ⟨c, e⟩
  else if upper then some ⟨c + 1, e⟩
  else none

end Interval

/-- The shortest decimal of `m * 2 ^ q`, for a positive `m`. -/
def shortest (m : Nat) (q : Int) : Decimal :=
  let i := interval m q
  ((List.range 17).findSome? fun n => i.onGrid? (n + 1)).getD ⟨m, 0⟩

/-- Where a number text switches between positional notation and exponents: the least and the
greatest number of digits before the point that are still written out. -/
structure Layout where
  leastPoint : Int
  greatestPoint : Int

/-- Positional between `0.0001` and seventeen digits, always with a fraction or an exponent. -/
def standardLayout : Layout := ⟨-3, 16⟩

def zeros (n : Nat) : String := String.ofList (List.replicate n '0')

/-- The digits without their final zeros, and the place of the point before them. -/
def significand (d : Decimal) : List Char × Int :=
  let all := (toString d.digits).toList
  ((all.reverse.dropWhile (· == '0')).reverse, d.exponent + all.length)

def exponentText (e : Int) : String :=
  let digits := toString e.natAbs
  (if e < 0 then "e-" else "e+") ++ (if digits.length < 2 then "0" else "") ++ digits

def Layout.write (layout : Layout) (d : Decimal) : String :=
  let (ds, point) := significand d
  if layout.leastPoint ≤ point ∧ point ≤ layout.greatestPoint then
    if point ≤ 0 then "0." ++ zeros (-point).toNat ++ String.ofList ds
    else if (ds.length : Int) ≤ point then
      String.ofList ds ++ zeros (point.toNat - ds.length) ++ ".0"
    else String.ofList (ds.take point.toNat) ++ "." ++ String.ofList (ds.drop point.toNat)
  else
    match ds with
    | [] => "0.0"
    | [d] => String.ofList [d] ++ exponentText (point - 1)
    | d :: rest => String.ofList (d :: '.' :: rest) ++ exponentText (point - 1)

/-- The text of a number, with the given spellings of the values that are not finite. -/
def text (infinity notANumber : String) : Binary64 → String
  | .finite negative m q =>
    (if negative then "-" else "") ++
      (if m = 0 then "0.0" else standardLayout.write (shortest m q))
  | .infinite negative => (if negative then "-" else "") ++ infinity
  | .nan => notANumber

end Binary64
end EndpointDsl
