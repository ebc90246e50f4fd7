import EndpointDsl.Reading
import EndpointDsl.Source.SyntaxError

/-!
From text to tokens.

Blanks, tabs, carriage returns, newlines and comments from `//` to the end of the line separate
tokens and are dropped.  Identifiers are ASCII letters, digits and underscores.  A string literal
stays on its line and knows four escapes.  The first character that starts no token, or the first
broken literal, ends the scan.
-/

namespace EndpointDsl
namespace Lexer

def isGap (c : Char) : Bool := c == ' ' || c == '\t' || c == '\r' || c == '\n'

/-- The character that an escape stands for. -/
def escape? (c : Char) : Option Char :=
  match c with
  | '"' => some '"'
  | '\\' => some '\\'
  | 'n' => some '\n'
  | 't' => some '\t'
  | _ => none

/-- The rest of a string literal.  `opening` is the place of its opening quote, `here` the place
of the first character of `cs`. -/
def literalTail (opening here : Location) (cs : List Char) :
    Except SyntaxError (Reading cs (List Char)) :=
  match cs with
  | [] => .error ⟨.unterminatedLiteral, opening⟩
  | '"' :: rest => .ok (.one [] '"' rest)
  | '\n' :: _ => .error ⟨.unterminatedLiteral, opening⟩
  | ['\\'] => .error ⟨.invalidEscape, here⟩
  | '\\' :: c :: rest =>
    match escape? c with
    | none => .error ⟨.invalidEscape, here⟩
    | some d =>
      match literalTail opening ((here.next '\\').next c) rest with
      | .error e => .error e
      | .ok r => .ok ((r.after c (d :: ·)).after '\\' id)
  | c :: rest =>
    match literalTail opening (here.next c) rest with
    | .error e => .error e
    | .ok r => .ok (r.after c (c :: ·))

/-- The tokens of the characters from `here` on. -/
def tokensFrom (here : Location) (cs : List Char) : Except SyntaxError (List Token) :=
  match cs with
  | [] => .ok []
  | '/' :: '/' :: rest =>
    let comment := rest.takeWhile (· != '\n')
    have : (rest.dropWhile (· != '\n')).length ≤ rest.length := length_dropWhile_le _ rest
    tokensFrom (here.after ('/' :: '/' :: comment)) (rest.dropWhile (· != '\n'))
  | '"' :: rest =>
    match literalTail here (here.next '"') rest with
    | .error e => .error e
    | .ok r =>
      have := r.shorter
      let lexeme := rest.take (rest.length - r.rest.length)
      (tokensFrom (here.after ('"' :: lexeme)) r.rest).map
        (⟨.literal (String.ofList r.value), here⟩ :: ·)
  | '=' :: '>' :: rest =>
    (tokensFrom (here.after ['=', '>']) rest).map (⟨.punct .arrow, here⟩ :: ·)
  | c :: rest =>
    if isGap c then tokensFrom (here.next c) rest
    else if isIdentStart c then
      let name := c :: rest.takeWhile isIdentRest
      have : (rest.dropWhile isIdentRest).length ≤ rest.length := length_dropWhile_le _ rest
      (tokensFrom (here.after name) (rest.dropWhile isIdentRest)).map
        (⟨.ident (String.ofList name), here⟩ :: ·)
    else if c = '=' then (tokensFrom (here.next c) rest).map (⟨.punct .equals, here⟩ :: ·)
    else
      match Punct.ofChar? c with
      | none => .error ⟨.unexpectedCharacter c, here⟩
      | some mark => (tokensFrom (here.next c) rest).map (⟨.punct mark, here⟩ :: ·)
termination_by cs.length

/-- The tokens of a text, whose places carry the name `unit`. -/
def tokenize (text unit : String) : Except SyntaxError TokenList :=
  let cs := text.toList
  (tokensFrom (.start unit) cs).map fun tokens => { tokens, stop := (Location.start unit).after cs }

end Lexer
end EndpointDsl
