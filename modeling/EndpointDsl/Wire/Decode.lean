import EndpointDsl.Client.Module
import EndpointDsl.Json.Reader
import EndpointDsl.Text.LetterCase
import EndpointDsl.Wire.Nesting
import EndpointDsl.Wire.Scalar

/-!
Making instances of the classes of a module.

A field takes its value from the entry under its wire name, or else from the entry under its
attribute name.  Entries that no field asks for are ignored.  All faults are collected, in the
order of the fields.
-/

namespace EndpointDsl
namespace Wire

open Client (ClassDef FieldDef FieldType Module Zero)

/-! ## The weight of a value, by which checking it ends -/

mutual

/-- More than the weight of whatever a value holds.  A text weighs as much as the one-entry object
that it stands for as a variant. -/
def Value.weight : Value → Nat
  | .list items => 1 + itemsWeight items
  | .object fields => 1 + fieldsWeight fields
  | .text _ => 3
  | _ => 1

def itemsWeight : List Value → Nat
  | [] => 0
  | v :: rest => 1 + v.weight + itemsWeight rest

def fieldsWeight : List (String × Value) → Nat
  | [] => 0
  | (_, v) :: rest => 1 + v.weight + fieldsWeight rest

end

theorem weight_lt_of_lookup? {key : String} {v : Value} {entries : List (String × Value)}
    (h : lookup? key entries = some v) : v.weight < fieldsWeight entries := by
  induction entries with
  | nil => simp [lookup?] at h
  | cons e rest ih =>
    obtain ⟨k, w⟩ := e
    by_cases hk : k = key
    · simp only [lookup?, hk, if_true, Option.some.injEq] at h
      subst h; simp only [fieldsWeight]; omega
    · simp only [lookup?, hk, if_false] at h
      have := ih h; simp only [fieldsWeight]; omega

/-- The entry that a field reads. -/
def entryFor? (f : FieldDef) (entries : List (String × Value)) : Option (String × Value) :=
  match lookup? f.wire entries with
  | some v => some (f.wire, v)
  | none => (lookup? f.attr entries).map (f.attr, ·)

theorem weight_lt_of_entryFor? {f : FieldDef} {key : String} {v : Value}
    {entries : List (String × Value)} (h : entryFor? f entries = some (key, v)) :
    v.weight < fieldsWeight entries := by
  unfold entryFor? at h
  split at h
  · next w hw =>
    simp only [Option.some.injEq, Prod.mk.injEq] at h
    exact h.2 ▸ weight_lt_of_lookup? hw
  · simp only [Option.map_eq_some_iff, Prod.mk.injEq] at h
    obtain ⟨w, hw, -, rfl⟩ := h
    exact weight_lt_of_lookup? hw

/-! ## Values of fields that are not given -/

def Zero.value : Zero → Value
  | .text => .text ""
  | .bool => .bool false
  | .int => .int 0
  | .float => .float (.zero false)
  | .bytes => .bytes []
  | .list => .list []

/-- The value of a field that is not given; a required field has none. -/
def fallbackValue (f : FieldDef) : Value :=
  match f.fallback with
  | .zero z => Zero.value z
  | .builder className attr => .builder className attr
  | .required | .absent => .null

/-! ## Instances -/

/-- A field and the value given for it. -/
structure Given where
  attr : String
  value : Option Value
  fallback : Value

def instanceOf (c : ClassDef) (given : List Given) : Value :=
  .model c.name (given.map fun g => (g.attr, g.value.getD g.fallback))

/-- The variant that alone was given, with the payload it must have. -/
def choiceOf (c : ClassDef) (given : List Given) : Checked Value :=
  match given.filterMap fun g => g.value.map (g.attr, ·) with
  | [(attr, payload)] =>
    match payload with
    | .null =>
      if c.payloadRequired.contains attr then Checked.fault (.payloadMissing c.name attr)
      else .ok (.choice c.name attr .null)
    | payload => .ok (.choice c.name attr payload)
  | chosen => Checked.fault (.variantCount c.name chosen.length)

/-- An instance of a class from what was given for its fields. -/
def assemble (c : ClassDef) (given : List Given) : Checked Value :=
  if c.base = .enum then choiceOf c given else .ok (instanceOf c given)

/-- What checking a value depends on.  In a document, whose own depth is limited, no references
are counted. -/
structure Setting where
  module : Module
  origin : Origin
  readers : List Reader

def Setting.program (m : Module) : Setting := ⟨m, .program, Reader.ofModule m⟩

def Setting.document (m : Module) : Setting := ⟨m, .document, []⟩

/-- The setting for the fields of a class.  What an enum gets from a document is first made a value
of the program, because a bare name is taken for a variant. -/
def Setting.within (s : Setting) (c : ClassDef) : Setting :=
  if c.base = .enum then { s with origin := .program } else s

mutual

def checkValue (s : Setting) (nesting : Nesting) (type : FieldType) (v : Value) : Checked Value :=
  match type with
  | .scalar kind =>
    match kind.check s.origin v with
    | .ok w => .ok w
    | .error f => Checked.fault f
  | .unit =>
    match v with
    | .null => .ok .null
    | _ => Checked.fault .nullWanted
  | .optional inner =>
    match v with
    | .null => .ok .null
    | v => checkValue s nesting inner v
  | .list item =>
    match v with
    | .list items => (checkItems s nesting item 0 items).map .list
    | _ => Checked.fault .listWanted
  | .model name =>
    match s.module.class? name, nesting.enter? s.readers name with
    | some c, some nesting => checkClass s nesting c v
    | some _, none => Checked.fault .nestedTooDeep
    | none, _ => Checked.fault .modelWanted
termination_by (v.weight, 1 + sizeOf type)
decreasing_by
  · exact Prod.Lex.right _ (by simp only [FieldType.optional.sizeOf_spec]; omega)
  · exact Prod.Lex.left _ _ (by simp only [Value.weight]; omega)
  · exact Prod.Lex.right _ (by omega)

/-- Checks the items from a position on. -/
def checkItems (s : Setting) (nesting : Nesting) (type : FieldType) (index : Nat)
    (items : List Value) : Checked (List Value) :=
  match items with
  | [] => .ok []
  | v :: rest =>
    (Checked.both ((checkValue s nesting type v).under (.index index))
      (checkItems s nesting type (index + 1) rest)).map fun p => p.1 :: p.2
termination_by (itemsWeight items, 0)
decreasing_by
  · exact Prod.Lex.left _ _ (by simp only [itemsWeight]; omega)
  · exact Prod.Lex.left _ _ (by simp only [itemsWeight]; omega)

/-- An instance of a class: made from an object, or given as it is.  A text stands for the variant
of an enum that it names. -/
def checkClass (s : Setting) (nesting : Nesting) (c : ClassDef) (v : Value) : Checked Value :=
  match v with
  | .object entries => do
    let given ← checkFields (s.within c) nesting c.fields entries
    assemble c given
  | .text name =>
    if c.base = .enum then do
      let given ← checkFields (s.within c) nesting c.fields [(name, .null)]
      assemble c given
    else Checked.fault .modelWanted
  | .model name _ => if name = c.name then .ok v else Checked.fault .modelWanted
  | .choice name _ _ => if name = c.name then .ok v else Checked.fault .modelWanted
  | _ => Checked.fault .modelWanted
termination_by (v.weight, 0)
decreasing_by
  · exact Prod.Lex.left _ _ (by simp only [Value.weight]; omega)
  · exact Prod.Lex.left _ _ (by simp only [Value.weight, fieldsWeight]; omega)

/-- What a field gets from the entries. -/
def checkField (s : Setting) (nesting : Nesting) (f : FieldDef) (entries : List (String × Value)) :
    Checked Given :=
  match h : entryFor? f entries with
  | some (key, v) =>
    have := weight_lt_of_entryFor? h
    ((checkValue s nesting f.fieldType v).under (.key key)).map fun w =>
      ⟨f.attr, some w, fallbackValue f⟩
  | none =>
    if f.fallback = .required then .error [⟨.missing, [.key f.wire]⟩]
    else .ok ⟨f.attr, none, fallbackValue f⟩
termination_by (fieldsWeight entries, 0)
decreasing_by
  · exact Prod.Lex.left _ _ (by omega)

/-- Reads the fields in order. -/
def checkFields (s : Setting) (nesting : Nesting) (fields : List FieldDef)
    (entries : List (String × Value)) : Checked (List Given) :=
  match fields with
  | [] => .ok []
  | f :: rest =>
    (Checked.both (checkField s nesting f entries) (checkFields s nesting rest entries)).map
      fun p => p.1 :: p.2
termination_by (fieldsWeight entries, 1 + fields.length)
decreasing_by
  · exact Prod.Lex.right _ (by omega)
  · exact Prod.Lex.right _ (by simp only [List.length_cons]; omega)

end

/-- An instance of a class from a value. -/
def checkAs (s : Setting) (c : ClassDef) (v : Value) : Checked Value :=
  checkClass s (Nesting.start s.readers c.name) c v

/-! ## Payloads and headers -/

/-- A document is at most this deep, and its numbers at most this long. -/
def documentLimits : Json.Limits := { depth := some 200, numeral := some numeralLimit }

def ofDocument (m : Module) (c : ClassDef) (text : String) : Checked Value :=
  match Json.readWithin? documentLimits text with
  | some j => checkAs (.document m) c (.ofJson j)
  | none => Checked.fault .documentUnreadable

/-- An instance from a received payload: the text of a document, or a value. -/
def decode (m : Module) (c : ClassDef) : Value → Checked Value
  | .text s => ofDocument m c s
  | .bytes b =>
    match Text.ofUtf8? b with
    | some s => ofDocument m c s
    | none => Checked.fault .documentUnreadable
  | v => checkAs (.program m) c v

/-- Header names in lower case; of two that become one the later counts. -/
def lowerNames (headers : List (String × Value)) : List (String × Value) :=
  lastWins (headers.map fun h => (Text.toLower h.1, h.2))

/-- The headers that a class has fields for, under the wire names of the fields. -/
def ownHeaders (c : ClassDef) (headers : List (String × Value)) : List (String × Value) :=
  let byName := lowerNames headers
  c.fields.filterMap fun f => (lookup? (Text.toLower f.wire) byName).map (f.wire, ·)

/-- An instance from received headers, whatever the letter case of their names. -/
def decodeHeaders (m : Module) (c : ClassDef) (headers : List (String × Value)) : Checked Value :=
  checkAs (.program m) c (.object (ownHeaders c headers))

end Wire
end EndpointDsl
