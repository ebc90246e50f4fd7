import EndpointDsl.Path.Template
import EndpointDsl.Reading
import EndpointDsl.Text.Percent
import EndpointDsl.Wire.Value

/-!
Concrete paths and query strings.
-/

namespace EndpointDsl
namespace Wire

/-! ## Paths -/

/-- A parameter name and its closing brace at the start of a text, and what follows. -/
def placeholder? (cs : List Char) : Option (String × List Char) :=
  match cs.dropWhile isIdentRest with
  | '}' :: rest =>
    if isIdent (cs.takeWhile isIdentRest) then some (String.ofList (cs.takeWhile isIdentRest), rest)
    else none
  | _ => none

theorem placeholder?_shorter {cs rest : List Char} {name : String}
    (h : placeholder? cs = some (name, rest)) : rest.length < cs.length := by
  unfold placeholder? at h
  split at h
  · next more hmore =>
    split at h
    · simp only [Option.some.injEq, Prod.mk.injEq] at h
      have := length_dropWhile_le isIdentRest cs
      simp only [hmore, List.length_cons] at this
      rw [← h.2]; omega
    · simp at h
  · simp at h

/-- Fills the placeholders of a text, from left to right.  What is filled in is not looked at
again.  The error names a placeholder without a value. -/
def fill (value? : String → Option String) (cs : List Char) : Except String (List Char) :=
  match cs with
  | [] => .ok []
  | '{' :: more =>
    match h : placeholder? more with
    | some (name, rest) =>
      have := placeholder?_shorter h
      match value? name with
      | none => .error name
      | some text => (fill value? rest).map ((Text.percentEncoded text).toList ++ ·)
    | none => (fill value? more).map ('{' :: ·)
  | c :: more => (fill value? more).map (c :: ·)
termination_by cs.length

/-- The path of a template, with percent-encoded values in place of its parameters. -/
def substitutePath (template : String) (value? : String → Option String) : Except String String :=
  (fill value? template.toList).map String.ofList

def missingParameterMessage (name : String) : String :=
  s!"missing value for path parameter '{name}'"

/-! ## Queries -/

def isNull : Json → Bool
  | .null => true
  | _ => false

/-- What a query shows of one parameter: nothing of null, the items of a list that are not null. -/
def queryScalars : Json → List Json
  | .null => []
  | .array items => items.filter (!isNull ·)
  | j => [j]

/-- The pairs of keys and texts, if every scalar has a text. -/
def queryPairs? (params : List (String × Json)) : Option (List (String × String)) :=
  (params.flatMap fun p => (queryScalars p.2).map (p.1, ·)).mapM fun p =>
    (scalarText? p.2).map (p.1, ·)

def pairText (p : String × String) : String := Text.formEncoded p.1 ++ "=" ++ Text.formEncoded p.2

/-- A query string, without the question mark. -/
def queryText (pairs : List (String × String)) : String :=
  String.intercalate "&" (pairs.map pairText)

def encodeQuery? (params : List (String × Json)) : Option String :=
  (queryPairs? params).map queryText

/-- The path with the query of the parameters that are not excluded, if it is not empty. -/
def appendQuery? (path : String) (params : List (String × Json)) (exclude : List String) :
    Option String :=
  (encodeQuery? (params.filter fun p => !exclude.contains p.1)).map fun query =>
    if query.isEmpty then path else path ++ "?" ++ query

end Wire
end EndpointDsl
