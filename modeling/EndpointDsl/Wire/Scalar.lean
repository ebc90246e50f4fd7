import EndpointDsl.Calendar.Reader
import EndpointDsl.Schema.Primitive
import EndpointDsl.Text.Lines
import EndpointDsl.Wire.Fault
import EndpointDsl.Wire.Value

/-!
Reading scalars leniently: numbers, truth values and dates are also taken from their texts, and
octets stand for the text they encode.
-/

namespace EndpointDsl
namespace Wire

/-- Where a value comes from: a program, or the text of a document. -/
inductive Origin
  | program
  | document
  deriving DecidableEq, Repr, Inhabited

/-- Blank characters around a number; the four separators of ASCII are not among them. -/
def isMargin (c : Char) : Bool := Text.isBlank c && !(0x1c ≤ c.toNat && c.toNat ≤ 0x1f)

def withoutMargins (s : String) : List Char := Text.trimChars isMargin s.toList

/-- The text that a value is or encodes; `onBad` blames octets that encode none. -/
def textOf? (onBad : Fault) : Value → Option (Except Fault String)
  | .text s => some (.ok s)
  | .bytes b => some (match Text.ofUtf8? b with
    | some s => .ok s
    | none => .error onBad)
  | _ => none

open Text (sign signed)

/-! ## Whole numbers -/

/-- Digits with single underscores between them. -/
def isDigitGroups : List Char → Bool
  | [] => false
  | [c] => c.isDigit
  | c :: '_' :: rest => c.isDigit && isDigitGroups rest
  | c :: rest => c.isDigit && isDigitGroups rest

/-- The digits of a number without the zeros in front of it.  Among those zeros underscores may
stand in any number. -/
def wholeDigits? (cs : List Char) : Option (List Char) :=
  let significant :=
    if cs.head? = some '0' then cs.dropWhile (fun c => c == '0' || c == '_') else cs
  if significant.isEmpty then
    if cs.getLast? = some '0' then some ['0'] else none
  else if isDigitGroups significant then some (significant.filter Char.isDigit)
  else none

/-- A whole number, possibly with a point and one or more zeros after it.  A minus sign counts as a
digit. -/
def readInt (s : String) : Except Fault Int :=
  let (negative, cs) := sign (withoutMargins s)
  let (whole, rest) := cs.span (· != '.')
  match wholeDigits? whole with
  | none => .error .intUnreadable
  | some digits =>
    if rest = ['.'] ∨ !(rest.drop 1).all (· == '0') then .error .intUnreadable
    else if numeralLimit < digits.length + (if negative then 1 else 0) then .error .intOutOfRange
    else .ok (signed negative (Text.digitsValue digits))

/-- Every whole number below this one in size fits in 64 bits with a sign. -/
def wordBound : Nat := 9223372036854775808

/-- Whether a number fits in 64 bits with a sign. -/
def isWord (n : Int) : Bool := decide (-(wordBound : Int) ≤ n) && decide (n < wordBound)

def intOfFloat (x : Binary64) : Except Fault Int :=
  match x, x.toInt? with
  | _, some n => if n.natAbs < wordBound then .ok n else .error .intOutOfRange
  | .finite _ _ _, none => .error .intFromFraction
  | _, none => .error .notFinite

def checkInt (v : Value) : Except Fault Int :=
  match v, textOf? .intUnreadable v with
  | _, some text => text.bind readInt
  | .int n, _ => .ok n
  | .bool b, _ => .ok (if b then 1 else 0)
  | .float x, _ => intOfFloat x
  | _, _ => .error .intWanted

def checkNatural (v : Value) : Except Fault Int := do
  let n ← checkInt v
  if n < 0 then .error .negative else .ok n

/-! ## Numbers with a fraction -/

def namedFloat? (cs : List Char) : Option Binary64 :=
  let (negative, cs) := sign cs
  let name := String.ofList (cs.map Char.toLower)
  if name = "inf" ∨ name = "infinity" then some (.infinite negative)
  else if name = "nan" then some .nan
  else none

def readDecimal? (cs : List Char) : Option Binary64 := (namedFloat? cs).orElse fun _ => Binary64.read? cs

/-- Single underscores inside a text are dropped; other underscores make it no number. -/
def withoutUnderscores? (cs : List Char) : Option (List Char) :=
  let doubled := (cs.zip (cs.drop 1)).any fun p => p.1 == '_' && p.2 == '_'
  if cs.head? = some '_' ∨ cs.getLast? = some '_' ∨ doubled ∨ !cs.contains '_' then none
  else some (cs.filter (· != '_'))

def readFloat? (s : String) : Option Binary64 :=
  match readDecimal? (withoutMargins s) with
  | some x => some x
  | none => (withoutUnderscores? s.toList).bind readDecimal?

/-- The double nearest to a whole number.  A program must not give one beyond all doubles. -/
def floatOfInt (origin : Origin) (n : Int) : Except Fault Binary64 :=
  match origin, Binary64.ofInt n with
  | .program, .infinite _ => .error .floatWanted
  | _, x => .ok x

def checkFloat (origin : Origin) (v : Value) : Except Fault Binary64 :=
  match v, textOf? .floatUnreadable v with
  | _, some text => do
    match readFloat? (← text) with
    | some x => .ok x
    | none => .error .floatUnreadable
  | .float x, _ => .ok x
  | .int n, _ => floatOfInt origin n
  | .bool b, _ => .ok (.ofInt (if b then 1 else 0))
  | _, _ => .error .floatWanted

/-! ## Truth values -/

def trueWords : List String := ["1", "t", "y", "on", "yes", "true"]

def falseWords : List String := ["0", "f", "n", "no", "off", "false"]

def readBool? (s : String) : Option Bool :=
  let word := String.ofList (s.toList.map Char.toLower)
  if trueWords.contains word then some true
  else if falseWords.contains word then some false
  else none

def boolOfInt (n : Int) : Except Fault Bool :=
  if n = 0 then .ok false
  else if n = 1 then .ok true
  else if isWord n then .error .boolUnreadable
  else .error .boolWanted

def checkBool (v : Value) : Except Fault Bool :=
  match v, textOf? .boolUnreadable v with
  | _, some text => do
    match readBool? (← text) with
    | some b => .ok b
    | none => .error .boolUnreadable
  | .bool b, _ => .ok b
  | .int n, _ => boolOfInt n
  | .float x, _ =>
    match intOfFloat x with
    | .ok n => boolOfInt n
    | .error _ => .error .boolWanted
  | _, _ => .error .boolWanted

/-! ## Texts and octets -/

def checkText (v : Value) : Except Fault String :=
  match textOf? .textNotUtf8 v with
  | some text => text
  | none => .error .textWanted

def checkBytes : Value → Except Fault (List UInt8)
  | .text s => .ok (Text.utf8 s)
  | .bytes b => .ok b
  | _ => .error .bytesWanted

/-! ## Dates and times -/

/-- The characters of a text; octets that encode none stand for a text that is no date. -/
def dateText? : Value → Option (List Char)
  | .text s => some s.toList
  | .bytes b => some (((Text.ofUtf8? b).map String.toList).getD [])
  | _ => none

def midnight (d : Date) : DateTime := { date := d }

/-- The first year that a date can have is 1. -/
def inYears {α : Type} (onZero : Fault) (year : α → Nat) (a : α) : Except Fault α :=
  if year a = 0 then .error onZero else .ok a

/-- The moment that a number stands for, if the value is a number.  In a document only a number of
64 bits is one here. -/
def momentOf? (origin : Origin) : Value → Option (Option DateTime)
  | .int n => if origin = .document ∧ !isWord n then none else some (DateTime.ofInt? n)
  | .float x => some (DateTime.ofFloat? x)
  | _ => none

/-- The date and time that a value stands for, in any year. -/
def dateTimeOf (origin : Origin) (v : Value) : Except Fault DateTime :=
  match v, dateText? v, momentOf? origin v with
  | _, some cs, _ =>
    match DateTime.read? cs, Date.read? cs with
    | some t, _ => .ok t
    | none, some d => .ok (midnight d)
    | none, none => .error .dateTimeFromDateUnreadable
  | .dateTime t, _, _ => .ok t
  | .date d, _, _ => .ok (midnight d)
  | _, _, some (some t) => .ok t
  | _, _, some none => .error .dateTimeUnreadable
  | _, _, none => .error .dateTimeWanted

def checkDateTime (origin : Origin) (v : Value) : Except Fault DateTime := do
  let t ← dateTimeOf origin v
  inYears .dateTimeUnreadable (·.date.year) t

/-- The date of a moment at the start of a day. -/
def dateAt (t : DateTime) : Except Fault Date :=
  if t.isMidnight then .ok t.date else .error .dateNotMidnight

/-- The date that a value stands for, in any year. -/
def dateOf (origin : Origin) (v : Value) : Except Fault Date :=
  match v, dateText? v, momentOf? origin v with
  | _, some cs, _ =>
    match Date.read? cs, DateTime.read? cs with
    | some d, _ => .ok d
    | none, some t => dateAt t
    | none, none => .error .dateFromDateTimeUnreadable
  | .date d, _, _ => .ok d
  | .dateTime t, _, _ => dateAt t
  | _, _, some (some t) => dateAt t
  | _, _, some none => .error .dateFromDateTimeUnreadable
  | _, _, none => .error .dateWanted

def checkDate (origin : Origin) (v : Value) : Except Fault Date := do
  let d ← dateOf origin v
  inYears .dateUnreadable Date.year d

end Wire

open Wire in
/-- The value of a scalar type that a given value stands for. -/
def Schema.Scalar.check (origin : Origin) (kind : Schema.Scalar) (v : Value) : Except Fault Value :=
  match kind with
  | .text => (checkText v).map .text
  | .bool => (checkBool v).map .bool
  | .int => (checkInt v).map .int
  | .natural => (checkNatural v).map .int
  | .float => (checkFloat origin v).map .float
  | .bytes => (checkBytes v).map .bytes
  | .dateTime => (checkDateTime origin v).map .dateTime
  | .date => (checkDate origin v).map .date

end EndpointDsl
