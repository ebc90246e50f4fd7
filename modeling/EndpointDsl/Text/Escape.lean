import EndpointDsl.Text.Hex

/-!
Double-quoted literals with backslash escapes.

Two dialects share the short escapes.  The plain one keeps every character from the space on;
the ASCII one keeps only visible ASCII and writes the rest as four-digit escapes, a code point
above the basic plane as the two halves of its surrogate pair.
-/

namespace EndpointDsl
namespace Text

def shortEscape? (c : Char) : Option (List Char) :=
  if c = '"' then some ['\\', '"']
  else if c = '\\' then some ['\\', '\\']
  else if c = '\n' then some ['\\', 'n']
  else if c = '\r' then some ['\\', 'r']
  else if c = '\t' then some ['\\', 't']
  else if c.toNat = 0x0c then some ['\\', 'f']
  else if c.toNat = 0x08 then some ['\\', 'b']
  else none

def unitEscape (n : Nat) : List Char := '\\' :: 'u' :: lowerHex 4 n

/-- The UTF-16 units of a code point. -/
def utf16Units (n : Nat) : List Nat :=
  if n < 0x10000 then [n]
  else [0xd800 + (n - 0x10000) / 0x400, 0xdc00 + (n - 0x10000) % 0x400]

def plainEscape (c : Char) : List Char :=
  match shortEscape? c with
  | some cs => cs
  | none => if c.toNat < 0x20 then unitEscape c.toNat else [c]

def asciiEscape (c : Char) : List Char :=
  match shortEscape? c with
  | some cs => cs
  | none =>
    if 0x20 ≤ c.toNat ∧ c.toNat ≤ 0x7e then [c]
    else (utf16Units c.toNat).flatMap unitEscape

def plainLiteral (s : String) : String :=
  String.ofList ('"' :: s.toList.flatMap plainEscape ++ ['"'])

def asciiLiteral (s : String) : String :=
  String.ofList ('"' :: s.toList.flatMap asciiEscape ++ ['"'])

end Text
end EndpointDsl
