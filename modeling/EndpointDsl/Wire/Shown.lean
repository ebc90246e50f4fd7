import EndpointDsl.Client.Module
import EndpointDsl.Wire.Value

/-!
The texts of values that are not part of a document: in a path, and inside the text of an
instance.
-/

namespace EndpointDsl

def Date.shown (d : Date) : String := s!"datetime.date({d.year}, {d.month}, {d.day})"

/-- A clock shows its seconds and microseconds only if they, or what follows them, are not zero. -/
def DateTime.shown (t : DateTime) : String :=
  let fraction := if t.microsecond = 0 then "" else s!", {t.microsecond}"
  let seconds := if t.second = 0 ∧ t.microsecond = 0 then "" else s!", {t.second}"
  let offset := match t.offset with
    | none => ""
    | some minutes => s!", tzinfo=TzInfo({60 * minutes})"
  s!"datetime.datetime({t.date.year}, {t.date.month}, {t.date.day}, {t.hour}, {t.minute}" ++
    seconds ++ fraction ++ offset ++ ")"

namespace Wire

open Client (Module)

mutual

/-- Whether all whole numbers in a value can be written. -/
def Value.isWritable : Value → Bool
  | .int n => Wire.isWritable n
  | .list items => areWritableValues items
  | .object fields => areWritableEntries fields
  | .model _ attrs => areWritableEntries attrs
  | .choice _ _ payload => payload.isWritable
  | _ => true

def areWritableValues : List Value → Bool
  | [] => true
  | v :: rest => v.isWritable && areWritableValues rest

def areWritableEntries : List (String × Value) → Bool
  | [] => true
  | (_, v) :: rest => v.isWritable && areWritableEntries rest

end

/-- The attributes of an enum instance: the payload under the chosen variant, null under others. -/
def variantTexts (m : Module) (className attr payload : String) : List String :=
  match m.class? className with
  | some c => c.fields.map fun f => f.attr ++ "=" ++ if f.attr = attr then payload else "None"
  | none => [attr ++ "=" ++ payload]

mutual

/-- The text of a value inside the text of an instance.  A builder method is shown without its place
in memory. -/
def shown (m : Module) : Value → String
  | .null => "None"
  | .bool b => if b then "True" else "False"
  | .int n => toString n
  | .float x => floatText x
  | .text s => Text.quoted s
  | .bytes b => Text.quotedBytes b
  | .dateTime t => t.shown
  | .date d => d.shown
  | .list items => "[" ++ String.intercalate ", " (shownItems m items) ++ "]"
  | .object fields => "\x7b" ++ String.intercalate ", " (shownEntries m fields) ++ "\x7d"
  | .model name attrs => name ++ "(" ++ String.intercalate ", " (shownAttrs m attrs) ++ ")"
  | .choice name attr payload =>
    name ++ "(" ++ String.intercalate ", " (variantTexts m name attr (shown m payload)) ++ ")"
  | .builder name attr => s!"<function {name}.with_{attr}>"

def shownItems (m : Module) : List Value → List String
  | [] => []
  | v :: rest => shown m v :: shownItems m rest

def shownEntries (m : Module) : List (String × Value) → List String
  | [] => []
  | (key, v) :: rest => (Text.quoted key ++ ": " ++ shown m v) :: shownEntries m rest

def shownAttrs (m : Module) : List (String × Value) → List String
  | [] => []
  | (attr, v) :: rest => (attr ++ "=" ++ shown m v) :: shownAttrs m rest

end

/-- A value as it stands in a path if its whole numbers were of any length: octets are quoted, a
moment has a space between date and time, and an instance lists its attributes.  A list or object
has a text only if it is a document. -/
def pathTextOf? (m : Module) : Value → Option String
  | .bytes b => some (Text.quotedBytes b)
  | .dateTime t => some (t.text " ")
  | .date d => some d.text
  | .model _ attrs => some (String.intercalate " " (shownAttrs m attrs))
  | .choice name attr payload =>
    some (String.intercalate " " (variantTexts m name attr (shown m payload)))
  | .builder name attr => some (shown m (.builder name attr))
  | v => v.toJson?.map scalarText

/-- A value as it stands in a path; with a whole number that is too long it has no text. -/
def pathText? (m : Module) (v : Value) : Option String :=
  if v.isWritable then pathTextOf? m v else none

end Wire
end EndpointDsl
