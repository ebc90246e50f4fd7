import EndpointDsl.Path.Template
import EndpointDsl.Source.Hint
import EndpointDsl.Source.Token

/-!
Why a text is not a sequence of endpoint blocks.

A cause names what was wrong; its message is what the author of the text reads.  An error is a
cause at a place.
-/

namespace EndpointDsl

/-- What the grammar asks for at a place where something else stands. -/
inductive Wanted
  | endpointOpening
  | endpointName
  | colonAfterEndpoint (name : String)
  | endpointBody
  | endpointClosing (name : String)
  | verb
  | path
  | arrow
  | methodBody
  | itemHead
  | structName
  | role
  | roleClosing
  | body (owner : String)
  | fieldName
  | colonAfterField (name : String)
  | enumName
  | enumBody (name : String)
  | variantName
  | payloadClosing
  | typeName
  | argumentsClosing
  | attributeItem
  | attributeValue (key : String)
  | attributeClosing
  deriving DecidableEq, Repr, Inhabited

def Wanted.phrase : Wanted → String
  | endpointOpening => "'[' to open an endpoint block"
  | endpointName => "endpoint name"
  | colonAfterEndpoint name => s!"':' after endpoint name '{name}'"
  | endpointBody => "'\x7b' to open the endpoint body"
  | endpointClosing name => s!"']' to close endpoint block '{name}'"
  | verb => "an HTTP verb"
  | path => "a quoted path template"
  | arrow => "'=>' after the path template"
  | methodBody => "'\x7b' to open the method body"
  | itemHead => "a structure role, 'struct' or 'enum'"
  | structName => "struct name"
  | role => "a structure role"
  | roleClosing => "'>' after the structure role"
  | body owner => s!"'\x7b' to open the body of '{owner}'"
  | fieldName => "field name"
  | colonAfterField name => s!"':' after field name '{name}'"
  | enumName => "enum name"
  | enumBody name => s!"'\x7b' to open the body of enum '{name}'"
  | variantName => "variant name"
  | payloadClosing => "')' to close the variant payload"
  | typeName => "type name"
  | argumentsClosing => "'>' to close the generic arguments"
  | attributeItem => "an attribute literal or name"
  | attributeValue key => s!"a string value for attribute '{key}'"
  | attributeClosing => "']' to close the attribute"

inductive SyntaxCause
  | unterminatedLiteral
  | invalidEscape
  | unexpectedCharacter (c : Char)
  | malformedPath (raw : String) (fault : PathFault)
  /-- Something else than the grammar wants; nothing at all at the end of the text. -/
  | expected (wanted : Wanted) (found : Option Lexeme)
  | unknownVerb (word : String)
  | unknownRole (word : String)
  | unterminatedEndpoint (name : String)
  | unterminatedMethod (verb : Verb) (path : String)
  | unterminatedBody (owner : String)
  | unterminatedEnum (name : String)
  | structLikeVariant (name : String)
  | emptyArguments (name : String)
  | emptyAttribute
  deriving DecidableEq, Repr, Inhabited

namespace SyntaxCause

def foundText : Option Lexeme → String
  | some lexeme => lexeme.describe
  | none => "end of input"

def unknownRoleMessage (word : String) : String :=
  s!"unknown structure role '{word}'" ++ Hint.forHead word ++ "; expected one of " ++
    String.intercalate ", " Hint.roleNames ++
    ", or 'struct Name \x7b...\x7d' / 'enum Name \x7b...\x7d'"

def unknownVerbMessage (word : String) : String :=
  s!"unknown HTTP verb '{word}'" ++ Hint.forVerb word ++ "; expected one of " ++
    String.intercalate ", " Hint.verbNames

def message : SyntaxCause → String
  | unterminatedLiteral => "unterminated string literal"
  | invalidEscape => "invalid escape sequence in string literal"
  | unexpectedCharacter c => "unexpected character " ++ Text.quoted (String.singleton c)
  | malformedPath raw fault => s!"malformed path template {Text.quoted raw}: {fault.message}"
  | expected wanted found => s!"expected {wanted.phrase}, found {foundText found}"
  | unknownVerb word => unknownVerbMessage word
  | unknownRole word => unknownRoleMessage word
  | unterminatedEndpoint name => s!"unterminated endpoint block '{name}'"
  | unterminatedMethod verb path => s!"unterminated method block {verb.name} \"{path}\""
  | unterminatedBody owner => s!"unterminated body of '{owner}'"
  | unterminatedEnum name => s!"unterminated body of enum '{name}'"
  | structLikeVariant name =>
    s!"struct-like variant '{name}' is not supported; " ++
      "declare a struct and use it as a payload instead"
  | emptyArguments name => s!"empty generic argument list for '{name}'"
  | emptyAttribute => "empty attribute '[]'"

end SyntaxCause

/-- A cause and the place it is reported at. -/
structure Located (α : Type) where
  cause : α
  location : Location
  deriving DecidableEq, Repr, Inhabited

abbrev SyntaxError := Located SyntaxCause

end EndpointDsl
