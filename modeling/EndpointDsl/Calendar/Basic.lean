import EndpointDsl.Text.Decimal

/-!
Dates and times of the Gregorian calendar.

Days are counted from the first of January 1970.  A time of day has microseconds, and may say how
far its clock is ahead of universal time.
-/

namespace EndpointDsl

structure Date where
  year : Nat
  month : Nat
  day : Nat
  deriving DecidableEq, Repr, Inhabited

namespace Date

def isLeap (year : Nat) : Bool := year % 4 == 0 && (year % 100 != 0 || year % 400 == 0)

def daysInMonth (year month : Nat) : Nat :=
  match month with
  | 2 => if isLeap year then 29 else 28
  | 4 | 6 | 9 | 11 => 30
  | 1 | 3 | 5 | 7 | 8 | 10 | 12 => 31
  | _ => 0

def isValid (d : Date) : Bool := decide (1 ≤ d.day) && decide (d.day ≤ daysInMonth d.year d.month)

/-- The date of a day.  Years are taken to begin in March, so that a leap day is the last day of
its year, and are grouped in cycles of four hundred, which all have the same length. -/
def ofDays (days : Int) : Date :=
  let fromMarch := days + 719468
  let cycle := fromMarch / 146097
  let inCycle := (fromMarch % 146097).toNat
  let yearInCycle := (inCycle - inCycle / 1460 + inCycle / 36524 - inCycle / 146096) / 365
  let inYear := inCycle - (365 * yearInCycle + yearInCycle / 4 - yearInCycle / 100)
  let monthFromMarch := (5 * inYear + 2) / 153
  let day := inYear - (153 * monthFromMarch + 2) / 5 + 1
  let month := if monthFromMarch < 10 then monthFromMarch + 3 else monthFromMarch - 9
  let year := cycle * 400 + yearInCycle + (if month ≤ 2 then 1 else 0)
  { year := year.toNat, month, day }

def text (d : Date) : String :=
  s!"{Text.zeroPadded 4 d.year}-{Text.zeroPadded 2 d.month}-{Text.zeroPadded 2 d.day}"

example : ofDays 0 = ⟨1970, 1, 1⟩ := by decide
example : ofDays 11016 = ⟨2000, 2, 29⟩ := by decide
example : ofDays (-1) = ⟨1969, 12, 31⟩ := by decide
example : ofDays 2932896 = ⟨9999, 12, 31⟩ := by decide
example : ofDays (-719528) = ⟨0, 1, 1⟩ := by decide

end Date

structure DateTime where
  date : Date
  hour : Nat := 0
  minute : Nat := 0
  second : Nat := 0
  microsecond : Nat := 0
  /-- Minutes ahead of universal time. -/
  offset : Option Int := none
  deriving DecidableEq, Repr, Inhabited

namespace DateTime

def isMidnight (t : DateTime) : Bool :=
  t.hour == 0 && t.minute == 0 && t.second == 0 && t.microsecond == 0

def offsetText (minutes : Int) : String :=
  let n := minutes.natAbs
  (if minutes < 0 then "-" else "+") ++ Text.zeroPadded 2 (n / 60) ++ ":" ++
    Text.zeroPadded 2 (n % 60)

/-- Date and clock without the offset.  A fraction is written only if there is one, in six
digits. -/
def localText (separator : String) (t : DateTime) : String :=
  t.date.text ++ separator ++
    s!"{Text.zeroPadded 2 t.hour}:{Text.zeroPadded 2 t.minute}:{Text.zeroPadded 2 t.second}" ++
    if t.microsecond = 0 then "" else "." ++ Text.zeroPadded 6 t.microsecond

/-- The text with a numeric offset. -/
def text (separator : String) (t : DateTime) : String :=
  t.localText separator ++ (t.offset.map offsetText).getD ""

/-- The text for transmission, in which universal time is marked by a letter. -/
def wireText (t : DateTime) : String :=
  t.localText "T" ++
    match t.offset with
    | none => ""
    | some 0 => "Z"
    | some minutes => offsetText minutes

/-- The moment a number of seconds after the start of 1970, in universal time. -/
def ofSeconds (seconds : Int) (microsecond : Nat) : DateTime :=
  let inDay := (seconds % 86400).toNat
  { date := Date.ofDays (seconds / 86400), hour := inDay / 3600, minute := inDay / 60 % 60,
    second := inDay % 60, microsecond, offset := some 0 }

end DateTime

end EndpointDsl
