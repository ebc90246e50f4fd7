import EndpointDsl.Reading
import EndpointDsl.Text.Quoted

/-!
Path templates such as `/api/user/{id}`.

A template is literal text with parameters between braces.  Braces do not nest, and what stands
between them is a plain identifier; one newline may follow the identifier and is then part of the
name.
-/

namespace EndpointDsl

inductive Segment
  | literal (text : String)
  | param (name : String)
  deriving DecidableEq, Repr, Inhabited

def Segment.param? : Segment → Option String
  | literal _ => none
  | param name => some name

structure PathTemplate where
  raw : String
  segments : List Segment
  deriving DecidableEq, Repr, Inhabited

/-- Why a text is not a path template. -/
inductive PathFault
  | unmatchedClose (position : Nat)
  | unclosedOpen (position : Nat)
  | nestedOpen (position : Nat)
  | invalidName (name : String)
  deriving DecidableEq, Repr, Inhabited

def PathFault.message : PathFault → String
  | unmatchedClose i => s!"unmatched '\x7d' at position {i}"
  | unclosedOpen i => s!"unclosed '\x7b' at position {i}"
  | nestedOpen i => s!"nested '\x7b' at position {i}"
  | invalidName name =>
    "invalid parameter name " ++ Text.quoted (if name.isEmpty then "(empty)" else name)

def isIdentStart (c : Char) : Bool := c.isAlpha || c == '_'

def isIdentRest (c : Char) : Bool := c.isAlphanum || c == '_'

def isIdent : List Char → Bool
  | [] => false
  | c :: rest => isIdentStart c && rest.all isIdentRest

namespace PathTemplate

/-- An identifier, or one followed by a single newline. -/
def isParamName (cs : List Char) : Bool :=
  isIdent cs || (cs.getLast? == some '\n' && isIdent cs.dropLast)

def literalSegment (cs : List Char) : List Segment :=
  if cs.isEmpty then [] else [.literal (String.ofList cs)]

def isBrace (c : Char) : Bool := c == '{' || c == '}'

/-- The segments of the characters from position `i` on. -/
def segmentsFrom (i : Nat) (cs : List Char) : Except PathFault (List Segment) :=
  let text := cs.takeWhile (!isBrace ·)
  let opening := i + text.length
  match h : cs.dropWhile (!isBrace ·) with
  | [] => .ok (literalSegment text)
  | c :: rest =>
    have hrest : rest.length < cs.length := by
      have := length_dropWhile_le (!isBrace ·) cs
      simp only [h, List.length_cons] at this; omega
    if c = '}' then .error (.unmatchedClose opening)
    else
      let name := rest.takeWhile (· != '}')
      match h' : rest.dropWhile (· != '}') with
      | [] => .error (.unclosedOpen opening)
      | _ :: more =>
        have hmore : more.length < rest.length := by
          have := length_dropWhile_le (· != '}') rest
          simp only [h', List.length_cons] at this; omega
        if name.contains '{' then .error (.nestedOpen opening)
        else if isParamName name then
          match segmentsFrom (opening + name.length + 2) more with
          | .error fault => .error fault
          | .ok segments =>
            .ok (literalSegment text ++ .param (String.ofList name) :: segments)
        else .error (.invalidName (String.ofList name))
termination_by cs.length

def parse (raw : String) : Except PathFault PathTemplate :=
  (segmentsFrom 0 raw.toList).map fun segments => { raw, segments }

/-- The parameter names in path order, repetitions included. -/
def parameters (path : PathTemplate) : List String := path.segments.filterMap Segment.param?

/-- Each name once, in the order of first occurrence. -/
def firstOccurrences (seen : List String) : List String → List String
  | [] => []
  | x :: rest =>
    if seen.contains x then firstOccurrences seen rest
    else x :: firstOccurrences (x :: seen) rest

def distinctParameters (path : PathTemplate) : List String := firstOccurrences [] path.parameters

end PathTemplate
end EndpointDsl
