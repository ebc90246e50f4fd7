import EndpointDsl.Json.Value
import EndpointDsl.Reading
import EndpointDsl.Text.Decimal
import EndpointDsl.Text.Hex

/-!
Reading JSON text.

A number without fraction and exponent is a whole number of any size, any other is rounded to the
nearest double.  The names `NaN` and `Infinity` are numbers too.  A string holds no control
character and no half of a surrogate pair.  Of two fields with one name the last one counts.

A reader may be given limits, beyond which it takes no text for a document.
-/

namespace EndpointDsl
namespace Json

structure Limits where
  /-- How many arrays and objects that are not empty may stand one inside the other. -/
  depth : Option Nat := none
  /-- How many characters a number may have before its fraction and exponent. -/
  numeral : Option Nat := none
  deriving DecidableEq, Repr, Inhabited

namespace Limits

/-- The limits inside an array or object that is not empty, if there may be one. -/
def inner? (l : Limits) : Option Limits :=
  match l.depth with
  | none => some l
  | some 0 => none
  | some (n + 1) => some { l with depth := some n }

def allowsNumeral (l : Limits) (length : Nat) : Bool :=
  match l.numeral with
  | none => true
  | some n => decide (length ≤ n)

end Limits

def isSpace (c : Char) : Bool := c == ' ' || c == '\t' || c == '\n' || c == '\r'

def skipSpace (cs : List Char) : List Char := cs.dropWhile isSpace

theorem length_skipSpace_le (cs : List Char) : (skipSpace cs).length ≤ cs.length :=
  length_dropWhile_le isSpace cs

/-! ## Strings -/

def fourHex? (a b c d : Char) : Option Nat := Text.ofHex? [a, b, c, d]

def isHighHalf (n : Nat) : Bool := decide (0xd800 ≤ n) && decide (n < 0xdc00)

def isLowHalf (n : Nat) : Bool := decide (0xdc00 ≤ n) && decide (n < 0xe000)

def shortEscapeValue? (c : Char) : Option Char :=
  if c = '"' ∨ c = '\\' ∨ c = '/' then some c
  else if c = 'n' then some '\n'
  else if c = 't' then some '\t'
  else if c = 'r' then some '\r'
  else if c = 'b' then some (Char.ofNat 0x08)
  else if c = 'f' then some (Char.ofNat 0x0c)
  else none

/-- One character of a string literal and what follows it. -/
def stringChar? : List Char → Option (Char × List Char)
  | '\\' :: 'u' :: a :: b :: c :: d :: rest => do
    let n ← fourHex? a b c d
    if isHighHalf n then
      match rest with
      | '\\' :: 'u' :: a :: b :: c :: d :: rest => do
        let m ← fourHex? a b c d
        if isLowHalf m then
          some (Char.ofNat (0x10000 + (n - 0xd800) * 0x400 + (m - 0xdc00)), rest)
        else none
      | _ => none
    else if isLowHalf n then none
    else some (Char.ofNat n, rest)
  | '\\' :: c :: rest => (shortEscapeValue? c).map (·, rest)
  | c :: rest => if c.toNat < 0x20 || c == '\\' then none else some (c, rest)
  | [] => none

theorem stringChar?_shorter {cs rest : List Char} {c : Char} (h : stringChar? cs = some (c, rest)) :
    rest.length < cs.length := by
  unfold stringChar? at h
  split at h
  · simp only [Option.bind_eq_bind, Option.bind_eq_some_iff] at h
    obtain ⟨n, _, h⟩ := h
    split at h
    · split at h
      · simp only [Option.bind_eq_some_iff] at h
        obtain ⟨m, _, h⟩ := h
        split at h
        · simp only [Option.some.injEq, Prod.mk.injEq] at h
          obtain ⟨_, rfl⟩ := h
          simp only [List.length_cons]; omega
        · simp at h
      · simp at h
    · split at h
      · simp at h
      · simp only [Option.some.injEq, Prod.mk.injEq] at h
        obtain ⟨_, rfl⟩ := h
        simp only [List.length_cons]; omega
  · simp only [Option.map_eq_some_iff, Prod.mk.injEq] at h
    obtain ⟨_, _, _, rfl⟩ := h
    simp only [List.length_cons]; omega
  · split at h
    · simp at h
    · simp only [Option.some.injEq, Prod.mk.injEq] at h
      obtain ⟨_, rfl⟩ := h
      simp
  · simp at h

/-- The rest of a string literal after its opening quote. -/
def stringTail (cs : List Char) : Option (Reading cs (List Char)) :=
  match cs with
  | [] => none
  | '"' :: rest => some ⟨[], rest, by simp⟩
  | c :: more =>
    match h : stringChar? (c :: more) with
    | none => none
    | some (d, rest) =>
      have := stringChar?_shorter h
      match stringTail rest with
      | none => none
      | some r => some ⟨d :: r.value, r.rest, by have := r.shorter; omega⟩
termination_by cs.length
decreasing_by exact stringChar?_shorter h

/-! ## Numbers -/

open Text (digitRun digitsValue)

def fraction? : List Char → Option (List Char × List Char)
  | '.' :: rest =>
    let (ds, rest) := digitRun rest
    if ds.isEmpty then none else some (ds, rest)
  | cs => some ([], cs)

def exponentDigits? (negative : Bool) (cs : List Char) : Option (Option Int × List Char) :=
  let (ds, rest) := digitRun cs
  if ds.isEmpty then none
  else
    let n : Int := digitsValue ds
    some (some (if negative then -n else n), rest)

def exponent? : List Char → Option (Option Int × List Char)
  | c :: rest =>
    if c = 'e' ∨ c = 'E' then
      match rest with
      | '+' :: rest => exponentDigits? false rest
      | '-' :: rest => exponentDigits? true rest
      | _ => exponentDigits? false rest
    else some (none, c :: rest)
  | [] => some (none, [])

/-- A number after its sign. -/
def unsigned? (limits : Limits) (negative : Bool) (cs : List Char) : Option (Json × List Char) := do
  let (whole, rest) := digitRun cs
  if whole.isEmpty || (whole.length > 1 && whole.head? == some '0') then none
  else if !limits.allowsNumeral (whole.length + if negative then 1 else 0) then none
  else
    let (frac, rest) ← fraction? rest
    let (exp?, rest) ← exponent? rest
    match frac, exp? with
    | [], none =>
      let n : Int := digitsValue whole
      some (.int (if negative then -n else n), rest)
    | _, _ =>
      some (.float (.ofDecimal negative (digitsValue (whole ++ frac))
        (exp?.getD 0 - frac.length)), rest)

def number? (limits : Limits) : List Char → Option (Json × List Char)
  | '-' :: 'I' :: rest =>
    if "nfinity".toList.isPrefixOf rest then some (.float (.infinite true), rest.drop 7) else none
  | '-' :: rest => unsigned? limits true rest
  | cs => unsigned? limits false cs

/-! ## Values -/

def keyword? (limits : Limits) (cs : List Char) : Option (Json × List Char) :=
  if "null".toList.isPrefixOf cs then some (.null, cs.drop 4)
  else if "true".toList.isPrefixOf cs then some (.bool true, cs.drop 4)
  else if "false".toList.isPrefixOf cs then some (.bool false, cs.drop 5)
  else if "NaN".toList.isPrefixOf cs then some (.float .nan, cs.drop 3)
  else if "Infinity".toList.isPrefixOf cs then some (.float (.infinite false), cs.drop 8)
  else number? limits cs

mutual

/-- A value at the very start of the text. -/
def value (limits : Limits) (cs : List Char) : Option (Reading cs Json) :=
  match cs with
  | [] => none
  | '"' :: rest =>
    match stringTail rest with
    | none => none
    | some r => some ⟨.string (String.ofList r.value), r.rest,
        by have := r.shorter; simp only [List.length_cons]; omega⟩
  | '[' :: more =>
    match hs : skipSpace more with
    | ']' :: rest => some ⟨.array [], rest, by
        have := length_skipSpace_le more
        simp only [hs, List.length_cons] at this ⊢; omega⟩
    | _ =>
      have := length_skipSpace_le more
      match limits.inner? with
      | none => none
      | some inner =>
        match elements inner (skipSpace more) with
        | none => none
        | some r => some ⟨.array r.value, r.rest,
            by have := r.shorter; simp only [List.length_cons]; omega⟩
  | '{' :: more =>
    match hs : skipSpace more with
    | '}' :: rest => some ⟨.object [], rest, by
        have := length_skipSpace_le more
        simp only [hs, List.length_cons] at this ⊢; omega⟩
    | _ =>
      have := length_skipSpace_le more
      match limits.inner? with
      | none => none
      | some inner =>
        match members inner (skipSpace more) with
        | none => none
        | some r => some ⟨.object (lastWins r.value), r.rest,
            by have := r.shorter; simp only [List.length_cons]; omega⟩
  | c :: more =>
    match keyword? limits (c :: more) with
    | none => none
    | some (v, rest) =>
      if h : rest.length < (c :: more).length then some ⟨v, rest, h⟩ else none
termination_by (cs.length, 0)

/-- One or more elements up to the closing bracket. -/
def elements (limits : Limits) (cs : List Char) : Option (Reading cs (List Json)) :=
  match value limits cs with
  | none => none
  | some v =>
    have := v.shorter
    have := length_skipSpace_le v.rest
    match hs : skipSpace v.rest with
    | ']' :: rest => some ⟨[v.value], rest, by simp only [hs, List.length_cons] at this; omega⟩
    | ',' :: more =>
      have := length_skipSpace_le more
      have : (skipSpace more).length < cs.length := by
        have h := length_skipSpace_le v.rest
        simp only [hs, List.length_cons] at h; omega
      match elements limits (skipSpace more) with
      | none => none
      | some r => some ⟨v.value :: r.value, r.rest, by have := r.shorter; omega⟩
    | _ => none
termination_by (cs.length, 1)

/-- One or more fields up to the closing brace. -/
def members (limits : Limits) (cs : List Char) : Option (Reading cs (List (String × Json))) :=
  match cs with
  | '"' :: afterQuote =>
    match stringTail afterQuote with
    | none => none
    | some key =>
      match hk : skipSpace key.rest with
      | ':' :: afterColon =>
        have := key.shorter
        have : (skipSpace afterColon).length < afterQuote.length := by
          have h := length_skipSpace_le key.rest
          have := length_skipSpace_le afterColon
          simp only [hk, List.length_cons] at h; omega
        match value limits (skipSpace afterColon) with
        | none => none
        | some v =>
          have := v.shorter
          match hv : skipSpace v.rest with
          | '}' :: rest => some ⟨[(String.ofList key.value, v.value)], rest, by
              have h := length_skipSpace_le v.rest
              simp only [hv, List.length_cons] at h ⊢; omega⟩
          | ',' :: more =>
            have : (skipSpace more).length < afterQuote.length := by
              have h := length_skipSpace_le v.rest
              have := length_skipSpace_le more
              simp only [hv, List.length_cons] at h; omega
            match members limits (skipSpace more) with
            | none => none
            | some r => some ⟨(String.ofList key.value, v.value) :: r.value, r.rest, by
                have := r.shorter; simp only [List.length_cons]; omega⟩
          | _ => none
      | _ => none
  | _ => none
termination_by (cs.length, 1)

end

/-- The document within limits that a whole text spells, if it is one. -/
def readWithin? (limits : Limits) (text : String) : Option Json :=
  match value limits (skipSpace text.toList) with
  | none => none
  | some r => if (skipSpace r.rest).isEmpty then some r.value else none

/-- The document that a whole text spells, if it is one. -/
def read? (text : String) : Option Json := readWithin? {} text

end Json
end EndpointDsl
