import EndpointDsl.Text.Hex

/-!
Reading octets as UTF-8 text.

Octets that are not the encoding of a text are refused, with the place where the first broken
character starts, the octets it takes up, and what is wrong with it.
-/

namespace EndpointDsl
namespace Text

inductive Utf8Fault
  | badStart
  | badContinuation
  | endOfData
  deriving DecidableEq, Repr

def Utf8Fault.reason : Utf8Fault → String
  | .badStart => "invalid start byte"
  | .badContinuation => "invalid continuation byte"
  | .endOfData => "unexpected end of data"

/-- The first place where octets stop being UTF-8: `count` octets from `position` on, the first
of which is `octet`. -/
structure Utf8Error where
  octet : UInt8
  position : Nat
  count : Nat
  fault : Utf8Fault
  deriving DecidableEq, Repr

def Utf8Error.message (e : Utf8Error) : String :=
  if e.count = 1 then
    s!"'utf-8' codec can't decode byte 0x{String.ofList (lowerHex 2 e.octet.toNat)} in position " ++
      s!"{e.position}: {e.fault.reason}"
  else
    s!"'utf-8' codec can't decode bytes in position {e.position}-" ++
      s!"{e.position + e.count - 1}: {e.fault.reason}"

/-- How many octets follow a first octet, and the least and greatest value of the second. -/
def continuation? (b : UInt8) : Option (Nat × UInt8 × UInt8) :=
  if b < 0x80 then some (0, 0x80, 0xbf)
  else if b < 0xc2 then none
  else if b < 0xe0 then some (1, 0x80, 0xbf)
  else if b = 0xe0 then some (2, 0xa0, 0xbf)
  else if b = 0xed then some (2, 0x80, 0x9f)
  else if b < 0xf0 then some (2, 0x80, 0xbf)
  else if b = 0xf0 then some (3, 0x90, 0xbf)
  else if b < 0xf4 then some (3, 0x80, 0xbf)
  else if b = 0xf4 then some (3, 0x80, 0x8f)
  else none

/-- Checks the `wanted` octets after the `seen` first ones of a character; the next one lies
between `lo` and `hi`, any later one is an ordinary continuation. -/
def tailFault? (seen : Nat) (lo hi : UInt8) : Nat → List UInt8 → Option (Nat × Utf8Fault)
  | 0, _ => none
  | _ + 1, [] => some (seen, .endOfData)
  | wanted + 1, b :: rest =>
    if lo ≤ b ∧ b ≤ hi then tailFault? (seen + 1) 0x80 0xbf wanted rest
    else some (seen, .badContinuation)

/-- The first error at or after `position`.  `skip` octets belong to a character already found
to be whole. -/
def utf8ErrorFrom (position skip : Nat) : List UInt8 → Option Utf8Error
  | [] => none
  | b :: rest =>
    match skip with
    | skip + 1 => utf8ErrorFrom (position + 1) skip rest
    | 0 =>
      match continuation? b with
      | none => some ⟨b, position, 1, .badStart⟩
      | some (wanted, lo, hi) =>
        match tailFault? 1 lo hi wanted rest with
        | some (count, fault) => some ⟨b, position, count, fault⟩
        | none => utf8ErrorFrom (position + 1) wanted rest

def utf8Error? (bytes : List UInt8) : Option Utf8Error := utf8ErrorFrom 0 0 bytes

def ofUtf8? (bytes : List UInt8) : Option String := String.fromUTF8? bytes.toByteArray

def ofUtf8 (bytes : List UInt8) : Except Utf8Error String :=
  match ofUtf8? bytes with
  | some s => .ok s
  | none => .error ((utf8Error? bytes).getD ⟨0, 0, 0, .badStart⟩)

end Text
end EndpointDsl
