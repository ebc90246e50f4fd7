import EndpointDsl.Text.Hex

/-!
Percent-encoding of the UTF-8 octets of a text.

Letters, digits and the four marks `_ . - ~` stand for themselves, every other octet is a percent
sign and two upper-case hexadecimal digits.  The form dialect writes a space as a plus sign.
-/

namespace EndpointDsl
namespace Text

def utf8 (s : String) : List UInt8 := s.toList.flatMap String.utf8EncodeChar

def isUnreserved (b : UInt8) : Bool :=
  let c := Char.ofNat b.toNat
  c.isAlphanum || c == '_' || c == '.' || c == '-' || c == '~'

def percentOctet (b : UInt8) : List Char :=
  if isUnreserved b then [Char.ofNat b.toNat] else '%' :: upperHex 2 b.toNat

def formOctet (b : UInt8) : List Char :=
  if b = 0x20 then ['+'] else percentOctet b

def percentEncoded (s : String) : String := String.ofList ((utf8 s).flatMap percentOctet)

def formEncoded (s : String) : String := String.ofList ((utf8 s).flatMap formOctet)

end Text
end EndpointDsl
