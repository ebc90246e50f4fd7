import EndpointDsl.Text.Hex
import EndpointDsl.Wire.Value

/-!
Scalars without quotes, by the rules of YAML 1.1.

The form of a scalar alone decides what it is: nothing, a truth value, a number, a date or a
moment, and otherwise a text.  Numbers may have underscores between their digits and may be
written in parts of sixty, as `1:30`.  A scalar that has the form of a number or a date need not
be one.
-/

namespace EndpointDsl
namespace Yaml

open Text (digitsValue sign signed)
open Wire (Value)

/-- Why a scalar has the form of a number or a date and is none. -/
inductive ScalarFault
  | noDigits (base : Nat)
  | tooManyDigits (count : Nat)
  | year (year : Nat)
  | month
  | day
  | hour
  | minute
  | second
  /-- The offset of a clock, in minutes, is a day or more. -/
  | offset (minutes : Int)
  deriving DecidableEq, Repr

/-- A span of time in days and seconds. -/
def spanText (minutes : Int) : String :=
  let days := minutes / 1440
  let seconds := 60 * (minutes % 1440)
  let parts := (if days = 0 then [] else [s!"days={days}"]) ++
    (if seconds = 0 then [] else [s!"seconds={seconds}"])
  "datetime.timedelta(" ++ (if parts.isEmpty then "0" else String.intercalate ", " parts) ++ ")"

def ScalarFault.message : ScalarFault → String
  | noDigits base => s!"invalid literal for int() with base {base}: ''"
  | tooManyDigits count =>
    s!"Exceeds the limit (4300 digits) for integer string conversion: value has {count} digits; " ++
      "use sys.set_int_max_str_digits() to increase the limit"
  | year n => s!"year {n} is out of range"
  | month => "month must be in 1..12"
  | day => "day is out of range for month"
  | hour => "hour must be in 0..23"
  | minute => "minute must be in 0..59"
  | second => "second must be in 0..59"
  | offset minutes =>
    "offset must be a timedelta strictly between -timedelta(hours=24) and timedelta(hours=24), " ++
      s!"not {spanText minutes}."

/-! ## Words -/

def nullWords : List String := ["", "~", "null", "Null", "NULL"]

def trueWords : List String :=
  ["yes", "Yes", "YES", "true", "True", "TRUE", "on", "On", "ON"]

def falseWords : List String :=
  ["no", "No", "NO", "false", "False", "FALSE", "off", "Off", "OFF"]

/-! ## Numbers -/

def isBarOr (isDigit : Char → Bool) (c : Char) : Bool := c == '_' || isDigit c

def withoutBars (cs : List Char) : List Char := cs.filter (· != '_')

/-- How many digits a decimal number may have. -/
def digitLimit : Nat := 4300

def decimal (cs : List Char) : Except ScalarFault Nat :=
  let digits := withoutBars cs
  if digitLimit < digits.length then .error (.tooManyDigits digits.length)
  else .ok (digitsValue digits)

/-- A number in a base other than ten. -/
def inBase (base : Nat) (cs : List Char) : Except ScalarFault Nat :=
  let digits := withoutBars cs
  if digits.isEmpty then .error (.noDigits base)
  else .ok (digits.foldl (fun n c => base * n + (Text.hexValue? c).getD 0) 0)

def isBinary (c : Char) : Bool := c == '0' || c == '1'

def isOctal (c : Char) : Bool := decide ('0' ≤ c) && decide (c ≤ '7')

def isHex (c : Char) : Bool := (Text.hexValue? c).isSome

/-- One of the parts of sixty after the first: at most 59, in one or two digits. -/
def isSixtieth : List Char → Bool
  | [c] => c.isDigit
  | [c, d] => decide ('0' ≤ c) && decide (c ≤ '5') && d.isDigit
  | _ => false

def startsWithDigit (cs : List Char) : Bool := (cs.head?.map Char.isDigit).getD false

def sixtyFold (parts : List Nat) : Nat := parts.foldl (fun n part => 60 * n + part) 0

/-- The whole number that a scalar without its sign has the form of. -/
def natural? (cs : List Char) : Option (Except ScalarFault Nat) :=
  match cs with
  | ['0'] => some (.ok 0)
  | '0' :: 'b' :: digits =>
    if !digits.isEmpty && digits.all (isBarOr isBinary) then some (inBase 2 digits) else none
  | '0' :: 'x' :: digits =>
    if !digits.isEmpty && digits.all (isBarOr isHex) then some (inBase 16 digits) else none
  | '0' :: digits =>
    if digits.all (isBarOr isOctal) then some (inBase 8 ('0' :: digits)) else none
  | _ =>
    match cs.splitOn ':' with
    | first :: sixtieths =>
      if startsWithDigit first && first.all (isBarOr Char.isDigit) && sixtieths.all isSixtieth then
        some (do return sixtyFold (← (first :: sixtieths).mapM decimal))
      else none
    | [] => none

def int? (cs : List Char) : Option (Except ScalarFault Int) :=
  let (negative, cs) := sign cs
  (natural? cs).map fun n => n.map (signed negative)

/-- An exponent, whose sign is not left out. -/
def exponent? : List Char → Option Int
  | [] => some 0
  | e :: s :: digits =>
    if (e = 'e' ∨ e = 'E') ∧ (s = '+' ∨ s = '-') ∧ !digits.isEmpty ∧ digits.all Char.isDigit then
      some (signed (s == '-') (digitsValue digits))
    else none
  | _ => none

def floatOf (negative : Bool) (whole part : List Char) (exponent : Int) : Binary64 :=
  let part := withoutBars part
  .ofDecimal negative (digitsValue (withoutBars whole ++ part)) (exponent - part.length)

/-- The rounded sum of a number and `base` times another. -/
def plusTimes (x : Binary64) (base : Nat) (y : Binary64) : Binary64 :=
  let (n, d) := y.ratio
  let (k, e) := (Binary64.ofRatio false (base * n) d).ratio
  let (n, d) := x.ratio
  .ofRatio false (n * e + k * d) (d * e)

/-- A number in parts of sixty, of which the last comes first. -/
def sixtySum (x : Binary64) (base : Nat) : List Binary64 → Binary64
  | [] => x
  | y :: rest => sixtySum (plusTimes x base y) (60 * base) rest

/-- A number in parts of sixty, the last of which has a fraction. -/
def sixtyFloat? (negative : Bool) (parts : List (List Char)) : Option Binary64 :=
  match parts.reverse with
  | last :: others =>
    let (whole, rest) := last.span (· != '.')
    match rest, others.getLast? with
    | '.' :: part, some first =>
      if startsWithDigit first && first.all (isBarOr Char.isDigit) &&
          (others.dropLast ++ [whole]).all isSixtieth && part.all (isBarOr Char.isDigit) then
        let size := sixtySum (floatOf false whole part 0) 60 (others.map (floatOf false · [] 0))
        some (.ofRatio negative size.ratio.1 size.ratio.2)
      else none
    | _, _ => none
  | [] => none

/-- A decimal number with a point.  Only one that starts with a digit may have a sign. -/
def pointed? (negative : Bool) (whole rest : List Char) (hasSign : Bool) : Option Binary64 :=
  match rest with
  | '.' :: rest =>
    let (part, rest) := rest.span (isBarOr Char.isDigit)
    if startsWithDigit whole || (whole.isEmpty && startsWithDigit part && !hasSign) then
      (exponent? rest).map (floatOf negative whole part)
    else none
  | _ => none

/-- The number with a fraction that a scalar has the form of. -/
def float? (cs : List Char) : Option Binary64 :=
  let (negative, size) := sign cs
  if [".inf", ".Inf", ".INF"].contains (String.ofList size) then some (.infinite negative)
  else if [".nan", ".NaN", ".NAN"].contains (String.ofList cs) then some .nan
  else
    let (whole, rest) := size.span (isBarOr Char.isDigit)
    (pointed? negative whole rest (size.length < cs.length)).orElse fun _ =>
      sixtyFloat? negative (size.splitOn ':')

/-! ## Dates and moments -/

/-- One or two digits at the start of a text: their number, their value, and the rest. -/
def upToTwoDigits? (cs : List Char) : Option (Nat × Nat × List Char) :=
  let digits := (cs.take 2).takeWhile Char.isDigit
  if digits.isEmpty then none
  else some (digits.length, digitsValue digits, cs.drop digits.length)

def exactly? (count : Nat) (cs : List Char) : Option (Nat × List Char) :=
  let digits := (cs.take count).takeWhile Char.isDigit
  if digits.length = count then some (digitsValue digits, cs.drop count) else none

def mark? (c : Char) : List Char → Option (List Char)
  | d :: rest => if d = c then some rest else none
  | [] => none

def isGap (c : Char) : Bool := c == ' ' || c == '\t'

/-- What stands between a date and a time of day. -/
def divider? : List Char → Option (List Char)
  | c :: rest =>
    if c = 'T' ∨ c = 't' then some rest
    else if isGap c then some (rest.dropWhile isGap)
    else none
  | [] => none

/-- The fraction of a second in microseconds; further digits are dropped. -/
def microseconds (cs : List Char) : Nat × List Char :=
  match cs with
  | '.' :: rest =>
    let digits := rest.takeWhile Char.isDigit
    (digitsValue ((digits ++ List.replicate 6 '0').take 6), rest.dropWhile Char.isDigit)
  | _ => (0, cs)

/-- The minutes after a colon, if there are any. -/
def offsetMinutes? : List Char → Option Nat
  | [] => some 0
  | ':' :: rest =>
    match exactly? 2 rest with
    | some (minutes, []) => some minutes
    | _ => none
  | _ => none

/-- The offset at the end of a moment, if there is one. -/
def offset? (cs : List Char) : Option (Option Int) :=
  match cs.dropWhile isGap with
  | [] => if cs.isEmpty then some none else none
  | ['Z'] => some (some 0)
  | c :: rest => do
    if c ≠ '+' ∧ c ≠ '-' then none
    let (_, hours, rest) ← upToTwoDigits? rest
    let minutes ← offsetMinutes? rest
    return some (signed (c == '-') (60 * hours + minutes))

/-- The date or moment that a scalar has the form of. -/
def timestamp? (cs : List Char) : Option (Date ⊕ DateTime) := do
  let (year, cs) ← exactly? 4 cs
  let cs ← mark? '-' cs
  let (monthDigits, month, cs) ← upToTwoDigits? cs
  let cs ← mark? '-' cs
  let (dayDigits, day, cs) ← upToTwoDigits? cs
  let date : Date := ⟨year, month, day⟩
  if cs.isEmpty then
    if monthDigits = 2 ∧ dayDigits = 2 then some (.inl date) else none
  else
    let cs ← divider? cs
    let (_, hour, cs) ← upToTwoDigits? cs
    let cs ← mark? ':' cs
    let (minute, cs) ← exactly? 2 cs
    let cs ← mark? ':' cs
    let (second, cs) ← exactly? 2 cs
    let (microsecond, cs) := microseconds cs
    let offset ← offset? cs
    some (.inr { date, hour, minute, second, microsecond, offset })

def dateFault? (d : Date) : Option ScalarFault :=
  if d.year = 0 then some (.year d.year)
  else if d.month = 0 ∨ 12 < d.month then some .month
  else if !d.isValid then some .day
  else none

def offsetFault? : Option Int → Option ScalarFault
  | some minutes => if 1440 ≤ minutes.natAbs then some (.offset minutes) else none
  | none => none

def clockFault? (t : DateTime) : Option ScalarFault :=
  if 23 < t.hour then some .hour
  else if 59 < t.minute then some .minute
  else if 59 < t.second then some .second
  else none

/-- The first thing wrong with a moment; its offset is looked at first. -/
def momentFault? (t : DateTime) : Option ScalarFault :=
  (offsetFault? t.offset).orElse fun _ => (dateFault? t.date).orElse fun _ => clockFault? t

def timestamp : Date ⊕ DateTime → Except ScalarFault Value
  | .inl d =>
    match dateFault? d with
    | some fault => .error fault
    | none => .ok (.date d)
  | .inr t =>
    match momentFault? t with
    | some fault => .error fault
    | none => .ok (.dateTime t)

/-! ## Scalars -/

/-- The mark of a mapping to be merged, and the mark of a default value; neither is a value. -/
def isReserved (cs : List Char) : Bool := cs == ['<', '<'] || cs == ['=']

/-- The value of a plain scalar that is not reserved. -/
def plainScalar (cs : List Char) : Except ScalarFault Value :=
  let word := String.ofList cs
  if nullWords.contains word then .ok .null
  else if trueWords.contains word then .ok (.bool true)
  else if falseWords.contains word then .ok (.bool false)
  else
    match float? cs, int? cs, timestamp? cs with
    | some x, _, _ => .ok (.float x)
    | none, some n, _ => n.map .int
    | none, none, some t => timestamp t
    | none, none, none => .ok (.text word)

end Yaml
end EndpointDsl
