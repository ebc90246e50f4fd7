import EndpointDsl.Json.Value
import EndpointDsl.Name.Identifier
import EndpointDsl.Schema.SemanticError

/-!
Rules of one structure or enum, and the names and flags that its members get.

A member's wire name is its explicit name, else its name in the casing style of the type, else its
own name.  A member that repeats the name of an earlier one is reported and left as it is.
-/

namespace EndpointDsl
namespace Schema

/-! ## Attributes of a type -/

def isRenameAll (a : Attribute) : Bool :=
  match a.kind with
  | .renameAll _ => true
  | _ => false

/-- The casing style of a type: the first style attribute decides, if it names a style. -/
def typeStyle (attributes : List Attribute) : Option Casing.Style :=
  match attributes.find? isRenameAll with
  | some ⟨.renameAll style, _, _⟩ => Casing.Style.ofName? style
  | _ => none

/-- `styled` tells whether a style attribute came before. -/
def typeAttributeErrors (owner : Owner) (styled : Bool) : List Attribute → List SemanticError
  | [] => []
  | a :: rest =>
    match a.kind with
    | .default => ⟨.misplacedDefault owner, a.location⟩ :: typeAttributeErrors owner styled rest
    | .rename _ =>
      ⟨.misplacedMemberAttribute "rename" owner, a.location⟩ ::
        typeAttributeErrors owner styled rest
    | .isError =>
      ⟨.misplacedMemberAttribute "isError" owner, a.location⟩ ::
        typeAttributeErrors owner styled rest
    | .builder => typeAttributeErrors owner styled rest
    | .renameAll style =>
      if styled then ⟨.repeatedRenameAll owner, a.location⟩ :: typeAttributeErrors owner true rest
      else if (Casing.Style.ofName? style).isSome then typeAttributeErrors owner true rest
      else ⟨.unknownStyle style owner, a.location⟩ :: typeAttributeErrors owner true rest

/-! ## Attributes of a member -/

/-- The explicit wire name: the first one that is not empty. -/
def explicitName? : List Attribute → Option String
  | [] => none
  | a :: rest =>
    match a.kind, a.scope with
    | .rename name, .field => if name.isEmpty then explicitName? rest else some name
    | _, _ => explicitName? rest

/-- `renamed` tells whether a wire name was given before. -/
def memberAttributeErrors (owner : Owner) (renamed : Bool) : List Attribute → List SemanticError
  | [] => []
  | a :: rest =>
    match a.scope, a.kind with
    | .field, .renameAll _ =>
      ⟨.misplacedRenameAll owner, a.location⟩ :: memberAttributeErrors owner renamed rest
    | .field, .builder =>
      ⟨.misplacedBuilder owner, a.location⟩ :: memberAttributeErrors owner renamed rest
    | .field, .rename name =>
      if renamed then ⟨.repeatedRename owner, a.location⟩ :: memberAttributeErrors owner true rest
      else if name.isEmpty then
        ⟨.emptyRename owner, a.location⟩ :: memberAttributeErrors owner false rest
      else memberAttributeErrors owner true rest
    | _, _ => memberAttributeErrors owner renamed rest

def wireName (style : Option Casing.Style) (attributes : List Attribute) (name : String) : String :=
  match explicitName? attributes with
  | some wire => wire
  | none =>
    match style with
    | some s => s.apply name
    | none => name

/-! ## Clashes between members -/

/-- A member with the names it goes by. -/
structure Member where
  name : String
  wire : String
  location : Location
  deriving DecidableEq, Repr, Inhabited

def wireClash (owner : Owner) (wires : List (String × String)) (m : Member) : List SemanticError :=
  match lookup? m.wire wires with
  | some other => [⟨.wireNameTaken m.name other owner m.wire, m.location⟩]
  | none => []

def attributeClash (owner : Owner) (attrs : List (String × String)) (m : Member) :
    List SemanticError :=
  let attr := Name.attributeName m.name
  match lookup? attr attrs with
  | some other =>
    if other = m.name then [] else [⟨.attributeTaken m.name other owner attr, m.location⟩]
  | none => []

/-- The first entry under a key stays. -/
def keepFirst (key value : String) (table : List (String × String)) : List (String × String) :=
  match lookup? key table with
  | some _ => table
  | none => (key, value) :: table

def clashErrors (owner : Owner) (wires attrs : List (String × String)) :
    List Member → List SemanticError
  | [] => []
  | m :: rest =>
    wireClash owner wires m ++ attributeClash owner attrs m ++
      clashErrors owner (keepFirst m.wire m.name wires)
        (keepFirst (Name.attributeName m.name) m.name attrs) rest

/-! ## Fields -/

def defaultMarkers (f : Field) : List Attribute :=
  f.attributes.filter fun a => a.kind == .default && a.scope == .field

/-- The type that keeps a field from having a zero value. -/
def zeroBlocker? : TypeDesc → Option String
  | .primitive name => if name = "Date" ∨ name = "DateTime" then some name else none
  | .reference name => some name
  | _ => none

def defaultErrors (owner : Owner) (decoded : Bool) (f : Field) : List SemanticError :=
  match defaultMarkers f with
  | [] => []
  | marker :: extra =>
    extra.map (fun a => ⟨.repeatedDefault f.name, a.location⟩) ++
      if !decoded then [⟨.defaultNeverDecoded f.name owner, marker.location⟩]
      else
        match zeroBlocker? f.type with
        | some type => [⟨.noZeroValue f.name type, marker.location⟩]
        | none => []

/-- Whether a default marker takes effect. -/
def grantsDefault (decoded : Bool) (f : Field) : Bool :=
  !(defaultMarkers f).isEmpty && decoded && (zeroBlocker? f.type).isNone

/-- The first error marker of a field, if it stands on the field itself. -/
def errorMarker? (f : Field) : Option Attribute :=
  match f.attributes.find? (fun a => a.kind == .isError) with
  | some a => if a.scope = .field then some a else none
  | none => none

def resolveField (style : Option Casing.Style) (cap : Capability) (f : Field) : Field :=
  let hasDefault := f.hasDefault || grantsDefault cap.decode f
  { f with
    wireName := some (wireName style f.attributes f.name)
    hasDefault
    omitIfAbsent := f.isOptional && cap.encode
    defaultIfMissing := (f.isOptional || hasDefault) && cap.decode }

/-- Applies `f` to every element whose name is new, and leaves the others. -/
def mapFirst {α : Type} (name : α → String) (f : α → α) (seen : List String) : List α → List α
  | [] => []
  | x :: rest =>
    if seen.contains (name x) then x :: mapFirst name f seen rest
    else f x :: mapFirst name f (name x :: seen) rest

/-- The elements whose name is new. -/
def distinct {α : Type} (name : α → String) (seen : List String) : List α → List α
  | [] => []
  | x :: rest =>
    if seen.contains (name x) then distinct name seen rest
    else x :: distinct name (name x :: seen) rest

def fieldErrors (owner : Owner) (cap : Capability) (names : List String) :
    List Field → List SemanticError
  | [] => []
  | f :: rest =>
    if names.contains f.name then
      ⟨.duplicateField f.name owner, f.location⟩ :: fieldErrors owner cap names rest
    else
      memberAttributeErrors (.field f.name) false f.attributes ++
        defaultErrors owner cap.decode f ++
        fieldErrors owner cap (f.name :: names) rest

/-! ## Structures -/

def Struct.owner (s : Struct) : Owner := .struct s.name

def Struct.distinctFields (s : Struct) : List Field := distinct Field.name [] s.fields

def Struct.members (s : Struct) : List Member :=
  s.distinctFields.map fun f =>
    ⟨f.name, wireName (typeStyle s.attributes) f.attributes f.name, f.location⟩

/-- The marked fields with their markers. -/
def Struct.marked (s : Struct) : List (Field × Attribute) :=
  s.distinctFields.filterMap fun f => (errorMarker? f).map (f, ·)

def markerErrors (s : Struct) : List SemanticError :=
  match s.marked with
  | [] => []
  | (_, marker) :: extra =>
    if !s.capability.decode then [⟨.errorNeverDecoded s.owner, marker.location⟩]
    else extra.map fun x => ⟨.repeatedError s.owner, x.2.location⟩

def structErrors (s : Struct) : List SemanticError :=
  typeAttributeErrors s.owner false s.attributes ++
    fieldErrors s.owner s.capability [] s.fields ++
    clashErrors s.owner [] [] s.members ++
    markerErrors s

/-- The field that signals a failed response: the only marked one, of a structure that is
received. -/
def Struct.errorName? (s : Struct) : Option String :=
  match s.marked with
  | [(f, _)] => if s.capability.decode then some f.name else none
  | _ => none

def resolveStruct (s : Struct) : Struct :=
  let resolve f :=
    let f := resolveField (typeStyle s.attributes) s.capability f
    if s.errorName? = some f.name then { f with isError := true } else f
  { s with fields := mapFirst Field.name resolve [] s.fields }

/-! ## Enums -/

def Enum.owner (e : Enum) : Owner := .enum e.name

def variantAttributeErrors (owner : Owner) (attributes : List Attribute) : List SemanticError :=
  attributes.filterMap fun a =>
    match a.kind with
    | .isError => some ⟨.errorOnVariant owner, a.location⟩
    | .default => some ⟨.misplacedDefault owner, a.location⟩
    | _ => none

def variantErrors (owner : Owner) (names : List String) : List Variant → List SemanticError
  | [] => []
  | v :: rest =>
    if names.contains v.name then
      ⟨.duplicateVariant v.name owner, v.location⟩ :: variantErrors owner names rest
    else
      variantAttributeErrors (.variant v.name) v.attributes ++
        memberAttributeErrors (.variant v.name) false v.attributes ++
        variantErrors owner (v.name :: names) rest

def Enum.members (e : Enum) : List Member :=
  (distinct Variant.name [] e.variants).map fun v =>
    ⟨v.name, wireName (typeStyle e.attributes) v.attributes v.name, v.location⟩

def enumErrors (e : Enum) : List SemanticError :=
  typeAttributeErrors e.owner false e.attributes ++
    (e.attributes.filter (·.kind == .builder)).map (fun a => ⟨.misplacedBuilder e.owner, a.location⟩) ++
    if e.variants.isEmpty then [⟨.noVariants e.owner, e.location⟩]
    else variantErrors e.owner [] e.variants ++ clashErrors e.owner [] [] e.members

def resolveVariant (style : Option Casing.Style) (v : Variant) : Variant :=
  { v with wireName := some (wireName style v.attributes v.name) }

def resolveEnum (e : Enum) : Enum :=
  { e with variants := mapFirst Variant.name (resolveVariant (typeStyle e.attributes)) [] e.variants }

/-! ## Items -/

def memberErrors : Item → List SemanticError
  | .struct s => structErrors s
  | .enum e => enumErrors e

def resolveItem : Item → Item
  | .struct s => .struct (resolveStruct s)
  | .enum e => .enum (resolveEnum e)

end Schema
end EndpointDsl
