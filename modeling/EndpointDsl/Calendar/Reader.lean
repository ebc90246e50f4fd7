import EndpointDsl.Calendar.Basic
import EndpointDsl.Number.Reader

/-!
Reading dates and times.

A date is written `2024-01-02`.  A time of day follows it after `T`, a space or an underscore; its
seconds, their fraction and the offset may be left out, and digits of a fraction beyond the sixth
are dropped.  A number stands for a moment too: seconds since the start of 1970, or milliseconds
if it is too large for that.  It may have a fraction.
-/

namespace EndpointDsl

def twoDigits? : List Char → Option (Nat × List Char)
  | a :: b :: rest =>
    if a.isDigit && b.isDigit then some (Text.digitsValue [a, b], rest) else none
  | _ => none

def char? (wanted : Char) : List Char → Option (List Char)
  | c :: rest => if c = wanted then some rest else none
  | [] => none

/-! ## Dates -/

/-- A date at the start of a text, and the rest. -/
def Date.take? (cs : List Char) : Option (Date × List Char) := do
  let (century, cs) ← twoDigits? cs
  let (year, cs) ← twoDigits? cs
  let cs ← char? '-' cs
  let (month, cs) ← twoDigits? cs
  let cs ← char? '-' cs
  let (day, cs) ← twoDigits? cs
  let date : Date := ⟨100 * century + year, month, day⟩
  if date.isValid then some (date, cs) else none

/-! ## Times of day -/

def fractionDigits (cs : List Char) : Nat :=
  let six := cs.take 6
  Text.digitsValue six * power 10 (6 - six.length)

/-- Microseconds after the mark of a fraction. -/
def fractionOfSecond? (cs : List Char) : Option (Nat × List Char) :=
  let (digits, rest) := Text.digitRun cs
  if digits.isEmpty then none else some (fractionDigits digits, rest)

def seconds? : List Char → Option ((Nat × Nat) × List Char)
  | ':' :: cs => do
    let (second, cs) ← twoDigits? cs
    if 59 < second then none
    else
      match cs with
      | c :: rest =>
        if c = '.' ∨ c = ',' then (fractionOfSecond? rest).map fun f => ((second, f.1), f.2)
        else some ((second, 0), cs)
      | [] => some ((second, 0), [])
  | cs => some ((0, 0), cs)

def clockOffset? (cs : List Char) : Option Int := do
  let (hours, cs) ← twoDigits? cs
  let cs := match cs with
    | ':' :: rest => rest
    | cs => cs
  let (minutes, cs) ← twoDigits? cs
  let total := 60 * hours + minutes
  if minutes < 60 ∧ total < 1440 ∧ cs.isEmpty then some (total : Int) else none

/-- The offset at the end of a text, if one is given at all. -/
def offset? : List Char → Option (Option Int)
  | [] => some none
  | ['Z'] => some (some 0)
  | ['z'] => some (some 0)
  | '+' :: cs => (clockOffset? cs).map some
  | '-' :: cs => (clockOffset? cs).map fun m => some (-m)
  | '−' :: cs => (clockOffset? cs).map fun m => some (-m)
  | _ => none

def isSeparator (c : Char) : Bool := c == 'T' || c == 't' || c == ' ' || c == '_'

/-- A date with a time of day. -/
def DateTime.ofText? (cs : List Char) : Option DateTime := do
  let (date, cs) ← Date.take? cs
  match cs with
  | [] => none
  | c :: cs =>
    if !isSeparator c then none
    else
      let (hour, cs) ← twoDigits? cs
      let cs ← char? ':' cs
      let (minute, cs) ← twoDigits? cs
      let ((second, microsecond), cs) ← seconds? cs
      let offset ← offset? cs
      if hour ≤ 23 ∧ minute ≤ 59 then some { date, hour, minute, second, microsecond, offset }
      else none

/-! ## Moments given by a number -/

/-- Beyond this many units the unit is a millisecond. -/
def secondsLimit : Nat := 20000000000

/-- The first and the last second of the years that can be written. -/
def firstSecond : Int := -62167219200

def lastSecond : Int := 253402300799

/-- The moment some seconds and microseconds after the start of 1970. -/
def DateTime.after? (seconds : Int) (microseconds : Nat) : Option DateTime :=
  let seconds := seconds + (microseconds / 1000000 : Nat)
  if firstSecond ≤ seconds ∧ seconds ≤ lastSecond then
    some (.ofSeconds seconds (microseconds % 1000000))
  else none

/-- The moment some milliseconds and microseconds after the start of 1970. -/
def DateTime.afterMilliseconds? (milliseconds : Int) (microseconds : Nat) : Option DateTime :=
  DateTime.after? (milliseconds / 1000) ((milliseconds % 1000).toNat * 1000 + microseconds)

/-- The moment that a whole number of units stands for. -/
def DateTime.ofInt? (n : Int) : Option DateTime :=
  if n.natAbs ≤ secondsLimit then DateTime.after? n 0 else DateTime.afterMilliseconds? n 0

/-- The nearest whole number to `scale` times the fraction `n / d`, a half going up.  The fraction
and the product are doubles, so both are rounded first. -/
def scaled (scale n d : Nat) : Nat :=
  let (n, d) := (Binary64.ofRatio false n d).ratio
  let (n, d) := (Binary64.ofRatio false (n * scale) d).ratio
  (2 * n + d) / (2 * d)

/-- The moment that a number of units with a fraction stands for, to the microsecond. -/
def DateTime.ofFloat? : Binary64 → Option DateTime
  | .finite negative m q =>
    let (n, d) := (Binary64.finite negative m q).ratio
    let whole : Int := if negative then -((n + d - 1) / d : Nat) else (n / d : Nat)
    let part := if negative then (d - n % d) % d else n % d
    if n ≤ secondsLimit * d then DateTime.after? whole (scaled 1000000 part d)
    else DateTime.afterMilliseconds? whole (scaled 1000 part d)
  | _ => none

/-- The whole number that a text spells, with or without a sign. -/
def wholeNumber? (cs : List Char) : Option Int :=
  let (negative, cs) := Text.sign cs
  if !cs.isEmpty && cs.all Char.isDigit then some (Text.signed negative (Text.digitsValue cs))
  else none

/-- The number that a text spells if there is a point after its first digits. -/
def fractional? (cs : List Char) : Option Binary64 :=
  if (Text.digitRun (Text.sign cs).2).2.head? = some '.' then Binary64.read? cs else none

/-- A date with a time of day, or the text of a number. -/
def DateTime.read? (cs : List Char) : Option DateTime :=
  match DateTime.ofText? cs with
  | some t => some t
  | none =>
    match wholeNumber? cs with
    | some n => DateTime.ofInt? n
    | none => (fractional? cs).bind DateTime.ofFloat?

/-- A date, or the text of a whole number that stands for the start of a day. -/
def Date.read? (cs : List Char) : Option Date :=
  match Date.take? cs with
  | some (date, []) => some date
  | _ =>
    ((wholeNumber? cs).bind DateTime.ofInt?).bind fun t =>
      if t.hour = 0 ∧ t.minute = 0 ∧ t.second = 0 then some t.date else none

end EndpointDsl
