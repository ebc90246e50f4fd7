import EndpointDsl.Client.Module
import EndpointDsl.Wire.Nesting
import EndpointDsl.Wire.Uri

/-!
Writing instances as documents, headers and query strings.

A structure becomes an object keyed by wire name, without the fields that are left out while they
are null.  A variant without payload becomes its wire name, any other an object with one entry.

A value is written as its place declares: a number as a double where a double is declared, and an
instance of another class with the fields that the declared class knows.  What does not fit its
place at all is written as what it is, except where an enum is declared.
-/

namespace EndpointDsl
namespace Wire

open Client (ClassDef FieldType Module)

/-- Why an instance has no encoded form. -/
inductive EncodeFault
  /-- Octets that are no text cannot be part of a document. -/
  | octetsNotText (octet : UInt8) (position : Nat)
  /-- An object stands where a structure is declared. -/
  | objectForStruct
  /-- A value that is no variant stands where an enum is declared. -/
  | notVariant (kind : String)
  /-- Too many references are open at once. -/
  | nestedTooDeep
  /-- A value that has no form in a document, of a kind that no place asks for. -/
  | unknownKind (kind : String)
  deriving DecidableEq, Repr, Inhabited

namespace EncodeFault

def cause : EncodeFault → String
  | octetsNotText octet position =>
    let digits := String.ofList (Text.lowerHex 2 octet.toNat)
    s!"UnicodeDecodeError: 'utf-8' codec can't decode byte 0x{digits} in position {position}: " ++
      "invalid utf-8"
  | objectForStruct => "AttributeError: type object 'dict' has no attribute 'model_fields'"
  | notVariant kind => s!"AttributeError: '{kind}' object has no attribute '_variant_attribute'"
  | nestedTooDeep => "ValueError: Circular reference detected (depth exceeded)"
  | unknownKind kind => s!"Unable to serialize unknown type: <class '{kind}'>"

/-- A fault of the writer itself is passed on as it is. -/
def message : EncodeFault → String
  | unknownKind kind => (unknownKind kind).cause
  | f => "Error calling function `_serialize`: " ++ f.cause

/-- The message of a fault that is met while the text of a document is written. -/
def textMessage (f : EncodeFault) : String :=
  "Error serializing to JSON: PydanticSerializationError: " ++ f.message

end EncodeFault

def ClassDef.wire (c : ClassDef) (attr : String) : String :=
  ((c.field? attr).map (·.wire)).getD attr

/-- Keys that a structure leaves out. -/
def ClassDef.omittedKeys (c : ClassDef) (attrs : List (String × Value)) : List String :=
  attrs.filterMap fun a =>
    match a.2 with
    | .null => if c.omitted.contains a.1 then some (ClassDef.wire c a.1) else none
    | _ => none

/-- What the declared type of a place asks of the value in it. -/
inductive Shape
  | free
  | whole
  | number
  | list (item : FieldType)
  | struct (declared : ClassDef)
  | enum (declared : ClassDef) (mayBeNull : Bool)
  deriving Repr, Inhabited

namespace Shape

def ofClass (c : ClassDef) : Shape := if c.base = .enum then .enum c false else .struct c

def ofClassName (m : Module) (name : String) : Shape := ((m.class? name).map ofClass).getD .free

def ofType (m : Module) : FieldType → Shape
  | .scalar .int => .whole
  | .scalar .natural => .whole
  | .scalar .float => .number
  | .scalar _ => .free
  | .unit => .free
  | .list item => .list item
  | .optional inner =>
    match ofType m inner with
    | .enum c _ => .enum c true
    | shape => shape
  | .model name => ofClassName m name

/-- The fault of a value that must not stand in a place. -/
def misfit? : Shape → Value → Option EncodeFault
  | .enum _ _, .choice _ _ _ => none
  | .enum _ true, .null => none
  | .enum _ _, v => some (.notVariant v.kindName)
  | _, _ => none

/-- The nesting inside an instance in a place: what is declared is entered, and where no class is
declared the class of the instance takes over. -/
def inside? (readers : List Reader) (n : Nesting) (own : ClassDef) : Shape → Option Nesting
  | .struct c => n.enter? readers c.name
  | .enum c _ => n.enter? readers c.name
  | _ => n.resume? readers own.name

/-- How a whole number is written in a place. -/
def int (shape : Shape) (n : Int) : Json :=
  match shape with
  | .number =>
    match Binary64.ofInt n with
    | .finite negative m q => .float (.finite negative m q)
    | _ => .int n
  | _ => .int n

/-- How a truth value is written in a place. -/
def bool (shape : Shape) (b : Bool) : Json :=
  match shape with
  | .whole | .number => shape.int (if b then 1 else 0)
  | _ => .bool b

end Shape

def encodeBytes (b : List UInt8) : Except EncodeFault Json :=
  match Text.ofUtf8 b with
  | .ok s => .ok (.string s)
  | .error e => .error (.octetsNotText e.octet e.position)

/-- The null of a variant that was not chosen, in a place of the declared class. -/
def encodeNull (m : Module) (type : FieldType) : Except EncodeFault Json :=
  match (Shape.ofType m type).misfit? .null with
  | some fault => .error fault
  | none => .ok .null

/-- An enum instance where a structure is declared: its variants as attributes. -/
def variantEntries (m : Module) (declared own : ClassDef) (attr : String)
    (payload : FieldType → Except EncodeFault Json) : Except EncodeFault (List (String × Json)) :=
  (own.fields.filterMap fun g => (declared.field? g.attr)).mapM fun f => do
    return (f.wire, ← if f.attr = attr then payload f.fieldType else encodeNull m f.fieldType)

/-- An enum instance where an enum is declared.  The chosen variant is named by the class of the
instance, and its payload is written only if the declared class has the variant by that name. -/
def encodeVariant (declared own : ClassDef) (attr : String)
    (payload : FieldType → Except EncodeFault Json) : Except EncodeFault Json :=
  let wire := ClassDef.wire own attr
  if own.units.contains attr then .ok (.string wire)
  else
    match declared.field? attr with
    | none => .ok (.object [(wire, .null)])
    | some f => do
      let j ← payload f.fieldType
      return .object [(wire, if f.wire = wire then j else .null)]

/-- A module and how the writers of its classes enter each other. -/
structure Writing where
  module : Module
  readers : List Reader

def Writing.ofModule (m : Module) : Writing := ⟨m, Reader.ofModule m⟩

mutual

/-- The document of a value in a place. -/
def encodeIn (w : Writing) (nesting : Nesting) (shape : Shape) (v : Value) :
    Except EncodeFault Json :=
  match shape.misfit? v with
  | some fault => .error fault
  | none =>
    match v with
    | .null => .ok .null
    | .bool b => .ok (shape.bool b)
    | .int n => .ok (shape.int n)
    | .float x => .ok (.float x)
    | .text s => .ok (.string s)
    | .builder _ _ => .error (.unknownKind v.kindName)
    | .bytes b => encodeBytes b
    | .dateTime t => .ok (.string t.wireText)
    | .date d => .ok (.string d.text)
    | .list items =>
      match shape with
      | .list item => (encodeItems w nesting (Shape.ofType w.module item) items).map .array
      | _ => (encodeItems w nesting .free items).map .array
    | .object fields => do
      let entries ← encodeEntries w nesting fields
      match shape with
      | .struct _ => .error .objectForStruct
      | _ => .ok (.object entries)
    | .model name attrs =>
      match w.module.class? name with
      | none => (encodeEntries w nesting attrs).map .object
      | some own =>
        match shape.inside? w.readers nesting own with
        | none => .error .nestedTooDeep
        | some inner => do
          let declared := match shape with
            | .struct c => c
            | _ => own
          let entries ← encodeAttrs w inner declared attrs
          let omitted := ClassDef.omittedKeys own attrs
          return .object (entries.filter fun e => !omitted.contains e.1)
    | .choice name attr payload =>
      match w.module.class? name with
      | none => (encodeIn w nesting .free payload).map fun j => .object [(attr, j)]
      | some own =>
        match shape.inside? w.readers nesting own with
        | none => .error .nestedTooDeep
        | some inner =>
          let inPlace := fun type => encodeIn w inner (Shape.ofType w.module type) payload
          match shape with
          | .struct declared => (variantEntries w.module declared own attr inPlace).map .object
          | .enum declared _ => encodeVariant declared own attr inPlace
          | _ => encodeVariant own own attr inPlace

def encodeItems (w : Writing) (nesting : Nesting) (shape : Shape) :
    List Value → Except EncodeFault (List Json)
  | [] => .ok []
  | v :: rest => do
    let j ← encodeIn w nesting shape v
    let js ← encodeItems w nesting shape rest
    return j :: js

def encodeEntries (w : Writing) (nesting : Nesting) :
    List (String × Value) → Except EncodeFault (List (String × Json))
  | [] => .ok []
  | (k, v) :: rest => do
    let j ← encodeIn w nesting .free v
    let js ← encodeEntries w nesting rest
    return (k, j) :: js

/-- The attributes that are fields of the declared class, under its wire names. -/
def encodeAttrs (w : Writing) (nesting : Nesting) (declared : ClassDef) :
    List (String × Value) → Except EncodeFault (List (String × Json))
  | [] => .ok []
  | (attr, v) :: rest =>
    match declared.field? attr with
    | none => encodeAttrs w nesting declared rest
    | some f => do
      let j ← encodeIn w nesting (Shape.ofType w.module f.fieldType) v
      let js ← encodeAttrs w nesting declared rest
      return (f.wire, j) :: js

end

/-- The document of a value in a place that declares nothing. -/
def encode (m : Module) (v : Value) : Except EncodeFault Json :=
  encodeIn (.ofModule m) ⟨default, 0⟩ .free v

/-! ## Headers -/

/-- The text of a header that is not null, if it can be written. -/
def headerText? : Json → Option String
  | .array items => (items.mapM scalarText?).map (String.intercalate ", ")
  | j => scalarText? j

/-- The headers for the entries that are not null, if all of them can be written. -/
def headersOf? (entries : List (String × Json)) : Option (List (String × String)) :=
  (entries.filter (!isNull ·.2)).mapM fun e => (headerText? e.2).map (e.1, ·)

end Wire
end EndpointDsl
