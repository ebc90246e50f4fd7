import EndpointDsl.Number.Power

/-!
Double-precision numbers as exact values.

A finite number is a sign, a mantissa below `2^53` and a power of two, in the one form in which
the mantissa is at least `2^52` or the exponent is the least one.  Everything is computed in whole
numbers, so no operation of this file rounds unless its doc comment says so.
-/

namespace EndpointDsl

inductive Binary64
  /-- The number `± mantissa * 2 ^ exponent`. -/
  | finite (negative : Bool) (mantissa : Nat) (exponent : Int)
  | infinite (negative : Bool)
  | nan
  deriving DecidableEq, Repr, Inhabited

namespace Binary64

def minExponent : Int := -1074

def maxExponent : Int := 971

def zero (negative : Bool) : Binary64 := .finite negative 0 minExponent

/-- The whole number nearest to `n / d`, of two equally near ones the even one. -/
def roundDiv (n d : Nat) : Nat :=
  let q := n / d
  let r := n % d
  if 2 * r < d then q
  else if d < 2 * r then q + 1
  else if q % 2 = 0 then q else q + 1

/-- Whether `2 ^ e ≤ n / d`. -/
def powerFits (n d : Nat) (e : Int) : Bool :=
  decide (d * power 2 e.toNat ≤ n * power 2 (-e).toNat)

/-- The greatest `e` with `2 ^ e ≤ n / d`, for positive `n` and `d`. -/
def floorLog2 (n d : Nat) : Int :=
  let e : Int := (Nat.log2 n : Int) - (Nat.log2 d : Int)
  if powerFits n d e then e else e - 1

/-- The number nearest to `± n / d`, ties to the even mantissa; beyond the range, infinity. -/
def ofRatio (negative : Bool) (n d : Nat) : Binary64 :=
  if n = 0 ∨ d = 0 then zero negative
  else
    let q := max (floorLog2 n d - 52) minExponent
    let m := roundDiv (n * power 2 (-q).toNat) (d * power 2 q.toNat)
    let (m, q) := if m = power 2 53 then (power 2 52, q + 1) else (m, q)
    if maxExponent < q then .infinite negative else .finite negative m q

def ofInt (n : Int) : Binary64 := ofRatio (decide (n < 0)) n.natAbs 1

/-- The number nearest to `± digits * 10 ^ exponent`. -/
def ofDecimal (negative : Bool) (digits : Nat) (exponent : Int) : Binary64 :=
  -- Beyond these bounds the result is zero or infinite, and the powers need not be computed.
  if digits = 0 then zero negative
  else
    let size : Int := (Nat.log2 digits : Int) / 3 + exponent
    if size < -400 then zero negative
    else if 400 < exponent then .infinite negative
    else ofRatio negative (digits * power 10 exponent.toNat) (power 10 (-exponent).toNat)

/-- The size of a finite number as a quotient, and zero for any other. -/
def ratio : Binary64 → Nat × Nat
  | .finite _ m q => (m * power 2 q.toNat, power 2 (-q).toNat)
  | _ => (0, 1)

/-- The whole number that equals `x`, if there is one. -/
def toInt? : Binary64 → Option Int
  | .finite negative m q =>
    let (n, d) := ratio (.finite negative m q)
    if n % d = 0 then
      let whole : Int := n / d
      some (if negative then -whole else whole)
    else none
  | _ => none

def isZero : Binary64 → Bool
  | .finite _ m _ => m == 0
  | _ => false

end Binary64

end EndpointDsl
