/-!
Line ends and blank characters.

A line ends at any of the characters that Unicode or ASCII treats as a separator of lines,
records or pages; a carriage return followed by a newline is one end.  Blank characters are
those that can be trimmed from the ends of a text.
-/

namespace EndpointDsl
namespace Text

def isLineEnd (c : Char) : Bool :=
  let n := c.toNat
  (0x0a ≤ n && n ≤ 0x0d) || (0x1c ≤ n && n ≤ 0x1e) || n == 0x85 || n == 0x2028 || n == 0x2029

/-- Splits at every line end, without the ends; a text that ends in a line end has no empty last
line.  `line` holds the characters of the current line, last first. -/
def linesFrom (line : List Char) : List Char → List (List Char)
  | [] => if line.isEmpty then [] else [line.reverse]
  | '\r' :: '\n' :: rest => line.reverse :: linesFrom [] rest
  | c :: rest =>
    if isLineEnd c then line.reverse :: linesFrom [] rest else linesFrom (c :: line) rest

def lines (s : String) : List String :=
  (linesFrom [] s.toList).map String.ofList

def isBlank (c : Char) : Bool :=
  let n := c.toNat
  (0x09 ≤ n && n ≤ 0x0d) || (0x1c ≤ n && n ≤ 0x20) || n == 0x85 || n == 0xa0 || n == 0x1680 ||
    (0x2000 ≤ n && n ≤ 0x200a) || n == 0x2028 || n == 0x2029 || n == 0x202f || n == 0x205f ||
    n == 0x3000

/-- Whether every character is blank; so also the empty text. -/
def allBlank (s : String) : Bool := s.toList.all isBlank

/-- Drops the characters satisfying `p` from both ends. -/
def trimChars (p : Char → Bool) (cs : List Char) : List Char :=
  ((cs.dropWhile p).reverse.dropWhile p).reverse

def trimNewlines (s : String) : String := String.ofList (trimChars (· == '\n') s.toList)

/-- Line ends of the two other conventions read as plain newlines. -/
def plainNewlines : List Char → List Char
  | [] => []
  | '\r' :: '\n' :: rest => '\n' :: plainNewlines rest
  | c :: rest => (if c = '\r' then '\n' else c) :: plainNewlines rest

def withPlainNewlines (s : String) : String := String.ofList (plainNewlines s.toList)

end Text
end EndpointDsl
