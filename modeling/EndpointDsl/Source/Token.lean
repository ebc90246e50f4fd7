import EndpointDsl.Source.Location

/-!
Lexical tokens of the endpoint language: identifiers, string literals and punctuation, each with
the place where it starts.  The value of a string literal is its content with the escapes read.
-/

namespace EndpointDsl

inductive Punct
  | leftBracket
  | rightBracket
  | leftBrace
  | rightBrace
  | leftParen
  | rightParen
  | leftAngle
  | rightAngle
  | colon
  | comma
  | question
  | equals
  | arrow
  deriving DecidableEq, Repr, Inhabited

namespace Punct

def spelling : Punct → String
  | leftBracket => "["
  | rightBracket => "]"
  | leftBrace => "\x7b"
  | rightBrace => "\x7d"
  | leftParen => "("
  | rightParen => ")"
  | leftAngle => "<"
  | rightAngle => ">"
  | colon => ":"
  | comma => ","
  | question => "?"
  | equals => "="
  | arrow => "=>"

/-- The mark that one character stands for.  The equals sign is not among them, since what it
stands for depends on the next character. -/
def ofChar? (c : Char) : Option Punct :=
  match c with
  | '[' => some leftBracket
  | ']' => some rightBracket
  | '{' => some leftBrace
  | '}' => some rightBrace
  | '(' => some leftParen
  | ')' => some rightParen
  | '<' => some leftAngle
  | '>' => some rightAngle
  | ':' => some colon
  | ',' => some comma
  | '?' => some question
  | _ => none

/-- Brackets that open a nested group; angle brackets do not count. -/
def isOpener : Punct → Bool
  | leftBracket | leftBrace | leftParen => true
  | _ => false

def isCloser : Punct → Bool
  | rightBracket | rightBrace | rightParen => true
  | _ => false

end Punct

inductive Lexeme
  | ident (name : String)
  | literal (value : String)
  | punct (mark : Punct)
  deriving DecidableEq, Repr, Inhabited

/-- A lexeme as error messages name it. -/
def Lexeme.describe : Lexeme → String
  | ident name => s!"identifier '{name}'"
  | literal value => s!"string \"{value}\""
  | punct mark => s!"'{mark.spelling}'"

def Lexeme.isOpener : Lexeme → Bool
  | punct mark => mark.isOpener
  | _ => false

def Lexeme.isCloser : Lexeme → Bool
  | punct mark => mark.isCloser
  | _ => false

structure Token where
  lexeme : Lexeme
  location : Location
  deriving DecidableEq, Repr, Inhabited

/-- All tokens of a text, and the place where the text ends. -/
structure TokenList where
  tokens : List Token
  stop : Location
  deriving DecidableEq, Repr, Inhabited

end EndpointDsl
