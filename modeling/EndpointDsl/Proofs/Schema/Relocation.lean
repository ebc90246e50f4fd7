import EndpointDsl.Proofs.Tree.Relocation
import EndpointDsl.Schema.Analysis
import EndpointDsl.Schema.Build

/-!
The schema of a tree whose places are moved.

Building, looking up names, the flow of capabilities and the resolution of wire names see no place.
What they make of declarations with moved places is what they make of the declarations, with its
places moved.
-/

namespace EndpointDsl
namespace Schema

/-! ## Schemas with moved places -/

section

variable (f : Location → Location)

def Attribute.relocate (a : Attribute) : Attribute := { a with location := f a.location }

def Field.relocate (d : Field) : Field :=
  { d with attributes := d.attributes.map (·.relocate f), location := f d.location }

def Variant.relocate (v : Variant) : Variant :=
  { v with attributes := v.attributes.map (·.relocate f), location := f v.location }

def Struct.relocate (s : Struct) : Struct :=
  { s with
    fields := s.fields.map (·.relocate f)
    attributes := s.attributes.map (·.relocate f)
    location := f s.location }

def Enum.relocate (e : Enum) : Enum :=
  { e with
    variants := e.variants.map (·.relocate f)
    attributes := e.attributes.map (·.relocate f)
    location := f e.location }

def Item.relocate : Item → Item
  | .struct s => .struct (s.relocate f)
  | .enum e => .enum (e.relocate f)

def Reference.relocate (r : Reference) : Reference := { r with location := f r.location }

def Method.relocate (m : Method) : Method :=
  { m with items := m.items.map (·.relocate f), location := f m.location }

def Endpoint.relocate (e : Endpoint) : Endpoint :=
  { e with methods := e.methods.map (·.relocate f), location := f e.location }

def Entry.relocate (x : Entry) : Entry :=
  { x with method := x.method.relocate f, item := x.item.relocate f }

end

end Schema

def Schema.relocate (f : Location → Location) (s : Schema) : Schema :=
  { s with endpoints := s.endpoints.map (·.relocate f) }

namespace Schema

variable {f : Location → Location}

/-! ## Building -/

theorem buildType_of_ne {name : String} (hname : name ≠ collectionName) (optional : Bool)
    (args : List Tree.TypeExpr) (location : Location) :
    buildType ⟨name, optional, args, location⟩ =
      if !args.isEmpty then .error ⟨.unexpectedArguments name, location⟩
      else if isPrimitive name then .ok (markOptional optional (.primitive name))
      else if startsUpper name then .ok (markOptional optional (.reference name))
      else .error ⟨.unknownPrimitive name, location⟩ := by
  rw [buildType.eq_def]
  exact if_neg hname

theorem buildType_relocate (t : Tree.TypeExpr) :
    buildType (t.relocate f) = relocateResult f id (buildType t) := by
  fun_induction buildType t with
  | case1 optional location arg e harg ih =>
    rw [harg] at ih
    simp only [Tree.TypeExpr.relocate, List.map_cons, List.map_nil, buildType, if_true, ih]
    rfl
  | case2 optional location arg item harg ih =>
    rw [harg] at ih
    simp only [Tree.TypeExpr.relocate, List.map_cons, List.map_nil, buildType, if_true, ih]
    rfl
  | case3 optional args location hargs =>
    cases args with
    | nil =>
      simp only [Tree.TypeExpr.relocate, List.map_nil, buildType, if_true]
      rfl
    | cons arg args =>
      cases args with
      | nil => exact absurd rfl (hargs arg)
      | cons other args =>
        simp only [Tree.TypeExpr.relocate, List.map_cons, buildType, if_true, List.length_cons,
          List.length_map]
        rfl
  | case4 name optional args location hname hargs =>
    rw [Tree.TypeExpr.relocate, buildType_of_ne hname, List.isEmpty_map, if_pos hargs]
    rfl
  | case5 name optional args location hname hargs hprimitive =>
    rw [Tree.TypeExpr.relocate, buildType_of_ne hname, List.isEmpty_map, if_neg hargs,
      if_pos hprimitive]
    rfl
  | case6 name optional args location hname hargs hprimitive hupper =>
    rw [Tree.TypeExpr.relocate, buildType_of_ne hname, List.isEmpty_map, if_neg hargs,
      if_neg hprimitive, if_pos hupper]
    rfl
  | case7 name optional args location hname hargs hprimitive hupper =>
    rw [Tree.TypeExpr.relocate, buildType_of_ne hname, List.isEmpty_map, if_neg hargs,
      if_neg hprimitive, if_neg hupper]
    rfl

theorem buildAttribute_relocate (scope : AttributeScope) (i : Tree.AttributeItem) :
    buildAttribute scope (i.relocate f) =
      relocateResult f (Attribute.relocate f) (buildAttribute scope i) := by
  simp only [buildAttribute, Tree.AttributeItem.relocate]
  cases entryKind scope i.entry <;> rfl

theorem buildAttributes_relocate (scope : AttributeScope) (brackets : List Tree.Attribute) :
    buildAttributes scope (brackets.map (·.relocate f)) =
      relocateResult f (List.map (Attribute.relocate f)) (buildAttributes scope brackets) := by
  have hitems : (brackets.map (·.relocate f)).flatMap (·.items) =
      (brackets.flatMap (·.items)).map (·.relocate f) := by
    rw [List.flatMap_map, List.map_flatMap]
    rfl
  rw [buildAttributes, hitems]
  exact mapM_relocateResult (buildAttribute_relocate scope) _

theorem buildField_relocate (d : Tree.Field) :
    buildField (d.relocate f) = relocateResult f (Field.relocate f) (buildField d) := by
  rw [buildField, Tree.Field.relocate, buildType_relocate, buildAttributes_relocate]
  exact bind_relocateResult fun type => bind_relocateResult fun attributes => rfl

theorem buildVariant_relocate (v : Tree.Variant) :
    buildVariant (v.relocate f) = relocateResult f (Variant.relocate f) (buildVariant v) := by
  have hpayload : (v.payload.map (·.relocate f)).mapM buildType =
      relocateResult f id (v.payload.mapM buildType) := by
    cases v.payload with
    | none => rfl
    | some type =>
      show buildType (type.relocate f) >>= _ = _
      rw [buildType_relocate]
      exact bind_relocateResult fun type => rfl
  rw [buildVariant, Tree.Variant.relocate, hpayload, buildAttributes_relocate]
  exact bind_relocateResult fun payload => bind_relocateResult fun attributes => rfl

theorem checkName_relocate (what name : String) (location : Location) :
    checkName what name (f location) = relocateResult f id (checkName what name location) := by
  rw [checkName, checkName]
  split <;> rfl

theorem buildItem_relocate (i : Tree.Item) :
    buildItem (i.relocate f) = relocateResult f (Item.relocate f) (buildItem i) := by
  cases i with
  | struct s =>
    rw [buildItem, Tree.Item.relocate, buildItem, Tree.Struct.relocate, checkName_relocate,
      mapM_relocateResult buildField_relocate, buildAttributes_relocate]
    exact bind_relocateResult fun _ => bind_relocateResult fun fields =>
      bind_relocateResult fun attributes => rfl
  | enum e =>
    rw [buildItem, Tree.Item.relocate, buildItem, Tree.Enum.relocate, checkName_relocate,
      mapM_relocateResult buildVariant_relocate, buildAttributes_relocate]
    exact bind_relocateResult fun _ => bind_relocateResult fun variants =>
      bind_relocateResult fun attributes => rfl

theorem builtItem?_relocate (i : Tree.Item) :
    builtItem? (i.relocate f) = (builtItem? i).map (Item.relocate f) := by
  rw [builtItem?, builtItem?, buildItem_relocate]
  cases buildItem i <;> rfl

theorem buildError?_relocate (i : Tree.Item) :
    buildError? (i.relocate f) = (buildError? i).map (Located.relocate f) := by
  rw [buildError?, buildError?, buildItem_relocate]
  cases buildItem i <;> rfl

theorem buildMethod_relocate (m : Tree.Method) :
    buildMethod (m.relocate f) = (buildMethod m).relocate f := by
  simp only [buildMethod, Tree.Method.relocate, Method.relocate, List.filterMap_map,
    List.map_filterMap]
  congr 1
  exact List.filterMap_congr fun i _ => builtItem?_relocate i

theorem buildEndpoint_relocate (e : Tree.Endpoint) :
    buildEndpoint (e.relocate f) = (buildEndpoint e).relocate f := by
  simp only [buildEndpoint, Tree.Endpoint.relocate, Endpoint.relocate, List.map_map]
  congr 1
  exact List.map_congr_left fun m _ => buildMethod_relocate m

theorem schema_build_relocate (source : Tree.Source) :
    (build (source.relocate f)).schema = (build source).schema.relocate f := by
  simp only [build, Tree.Source.relocate, Schema.relocate, List.map_map]
  congr 1
  exact List.map_congr_left fun e _ => buildEndpoint_relocate e

theorem errors_build_relocate (source : Tree.Source) :
    (build (source.relocate f)).errors = (build source).errors.map (·.relocate f) := by
  simp only [build, Tree.Source.relocate, Tree.Endpoint.relocate, Tree.Method.relocate,
    List.flatMap_map, List.map_flatMap, List.filterMap_map, List.map_filterMap]
  refine congrArg₂ List.flatMap (funext fun e => ?_) rfl
  refine congrArg₂ List.flatMap (funext fun m => ?_) rfl
  exact List.filterMap_congr fun i _ => buildError?_relocate i

/-! ## Names and capabilities -/

@[simp] theorem Item.name_relocate (i : Item) : (i.relocate f).name = i.name := by cases i <;> rfl

@[simp] theorem Item.location_relocate (i : Item) : (i.relocate f).location = f i.location := by
  cases i <;> rfl

@[simp] theorem Item.role?_relocate (i : Item) : (i.relocate f).role? = i.role? := by
  cases i <;> rfl

theorem Item.struct?_relocate (i : Item) :
    (i.relocate f).struct? = i.struct?.map (Struct.relocate f) := by
  cases i <;> rfl

theorem Item.references_relocate (i : Item) :
    (i.relocate f).references = i.references.map (·.relocate f) := by
  cases i with
  | struct s =>
    simp only [Item.relocate, Item.references, Struct.relocate, List.flatMap_map,
      List.map_flatMap, List.map_map]
    rfl
  | enum e =>
    simp only [Item.relocate, Item.references, Enum.relocate, List.flatMap_map, List.map_flatMap]
    refine congrArg₂ List.flatMap (funext fun v => ?_) rfl
    simp only [Variant.relocate]
    cases v.payload with
    | none => rfl
    | some type =>
      show _ = (type.references.map _).map _
      rw [List.map_map]
      rfl

theorem methodEntries_relocate (index : Nat) (m : Method) :
    methodEntries index (m.relocate f) = (methodEntries index m).map (·.relocate f) := by
  simp only [methodEntries, Method.relocate, List.map_map]
  rfl

theorem entriesFrom_relocate (index : Nat) (ms : List Method) :
    entriesFrom index (ms.map (·.relocate f)) = (entriesFrom index ms).map (·.relocate f) := by
  induction ms generalizing index with
  | nil => rfl
  | cons m ms ih =>
    rw [List.map_cons, entriesFrom, entriesFrom, List.map_append, methodEntries_relocate, ih]

theorem entries_relocate (e : Endpoint) :
    (e.relocate f).entries = e.entries.map (·.relocate f) :=
  entriesFrom_relocate 0 e.methods

theorem resolveIndex?_relocate (entries : List Entry) (methodIndex : Nat) (name : String) :
    resolveIndex? (entries.map (·.relocate f)) methodIndex name =
      resolveIndex? entries methodIndex name := by
  simp only [resolveIndex?, List.findIdx?_map, Function.comp_def, Entry.relocate,
    Item.name_relocate]

theorem targets_relocate (entries : List Entry) (x : Entry) :
    targets (entries.map (·.relocate f)) (x.relocate f) = targets entries x := by
  simp only [targets, Entry.relocate, Item.references_relocate, List.filterMap_map]
  exact List.filterMap_congr fun r _ => resolveIndex?_relocate entries x.methodIndex r.name

theorem allEdgesFrom_relocate (entries : List Entry) (position : Nat) (xs : List Entry) :
    allEdgesFrom (entries.map (·.relocate f)) position (xs.map (·.relocate f)) =
      allEdgesFrom entries position xs := by
  induction xs generalizing position with
  | nil => rfl
  | cons x xs ih => rw [List.map_cons, allEdgesFrom, allEdgesFrom, targets_relocate, ih]

theorem inherits_relocate (i : Item) : (i.relocate f).inherits = i.inherits := by
  rw [Item.inherits, Item.inherits, Item.role?_relocate]

theorem inheritsAt_relocate (entries : List Entry) (i : Nat) :
    inheritsAt (entries.map (·.relocate f)) i = inheritsAt entries i := by
  rw [inheritsAt, inheritsAt, List.getElem?_map]
  cases entries[i]? with
  | none => rfl
  | some x => exact inherits_relocate x.item

theorem edges_relocate (entries : List Entry) :
    edges (entries.map (·.relocate f)) = edges entries := by
  simp only [edges, allEdges, allEdgesFrom_relocate, inheritsAt_relocate]

theorem seedsFrom_relocate (referenced : List Nat) (position : Nat) (xs : List Entry) :
    seedsFrom referenced position (xs.map (·.relocate f)) = seedsFrom referenced position xs := by
  induction xs generalizing position with
  | nil => rfl
  | cons x xs ih =>
    rw [List.map_cons, seedsFrom, seedsFrom, ih, seed, seed, Entry.relocate, Item.role?_relocate]

theorem seeds_relocate (entries : List Entry) :
    seeds (entries.map (·.relocate f)) = seeds entries := by
  rw [seeds, seeds, allEdges, allEdges, allEdgesFrom_relocate, seedsFrom_relocate]

theorem fallback_relocate (x : Entry) (c : Capability) :
    fallback (x.relocate f) c = fallback x c := by
  rw [fallback, fallback, Entry.relocate, inherits_relocate]

/-- Capabilities flow along references, which have names and no places. -/
theorem capabilities_relocate (e : Endpoint) : capabilities (e.relocate f) = capabilities e := by
  simp only [capabilities, entries_relocate, edges_relocate, seeds_relocate, List.length_map,
    List.zipWith_map_left, fallback_relocate]

theorem withCapability_relocate (i : Item) (c : Capability) :
    (i.relocate f).withCapability c = (i.withCapability c).relocate f := by
  cases i <;> rfl

theorem takeCapabilities_relocate (items : List Item) (caps : List Capability) :
    takeCapabilities (items.map (·.relocate f)) caps =
      ((takeCapabilities items caps).1.map (·.relocate f), (takeCapabilities items caps).2) := by
  induction items generalizing caps with
  | nil => rfl
  | cons i items ih =>
    cases caps with
    | nil => rfl
    | cons c caps =>
      simp only [List.map_cons, takeCapabilities, ih, withCapability_relocate]

theorem assignMethods_relocate (ms : List Method) (caps : List Capability) :
    assignMethods (ms.map (·.relocate f)) caps = (assignMethods ms caps).map (·.relocate f) := by
  induction ms generalizing caps with
  | nil => rfl
  | cons m ms ih =>
    have hitems : (m.relocate f).items = m.items.map (·.relocate f) := rfl
    simp only [List.map_cons, assignMethods, hitems, takeCapabilities_relocate, ih]
    rfl

theorem withCapabilities_relocate (e : Endpoint) :
    (e.relocate f).withCapabilities = e.withCapabilities.relocate f := by
  simp only [Endpoint.withCapabilities, capabilities_relocate]
  simp only [Endpoint.relocate, assignMethods_relocate]

/-! ## Wire names and flags -/

theorem typeStyle_relocate (attributes : List Attribute) :
    typeStyle (attributes.map (·.relocate f)) = typeStyle attributes := by
  have hfind : (attributes.map (·.relocate f)).find? isRenameAll =
      (attributes.find? isRenameAll).map (·.relocate f) := by
    rw [List.find?_map]
    rfl
  rw [typeStyle, typeStyle, hfind]
  cases attributes.find? isRenameAll with
  | none => rfl
  | some a =>
    obtain ⟨kind, scope, location⟩ := a
    cases kind <;> rfl

theorem explicitName?_relocate (attributes : List Attribute) :
    explicitName? (attributes.map (·.relocate f)) = explicitName? attributes := by
  induction attributes with
  | nil => rfl
  | cons a attributes ih =>
    rw [List.map_cons, explicitName?, explicitName?, ih]
    rfl

theorem wireName_relocate (style : Option Casing.Style) (attributes : List Attribute)
    (name : String) :
    wireName style (attributes.map (·.relocate f)) name = wireName style attributes name := by
  simp only [wireName, explicitName?_relocate]

theorem defaultMarkers_relocate (d : Field) :
    defaultMarkers (d.relocate f) = (defaultMarkers d).map (·.relocate f) := by
  simp only [defaultMarkers, Field.relocate, List.filter_map]
  rfl

theorem grantsDefault_relocate (decoded : Bool) (d : Field) :
    grantsDefault decoded (d.relocate f) = grantsDefault decoded d := by
  rw [grantsDefault, grantsDefault, defaultMarkers_relocate, List.isEmpty_map]
  rfl

theorem errorMarker?_relocate (d : Field) :
    errorMarker? (d.relocate f) = (errorMarker? d).map (·.relocate f) := by
  have hfind : (d.relocate f).attributes.find? (fun a => a.kind == .isError) =
      (d.attributes.find? fun a => a.kind == .isError).map (·.relocate f) :=
    List.find?_map
  rw [errorMarker?, errorMarker?, hfind]
  cases d.attributes.find? fun a => a.kind == .isError with
  | none => rfl
  | some a =>
    by_cases hscope : a.scope = .field
    · simp [Attribute.relocate, hscope]
    · simp [Attribute.relocate, hscope]

theorem resolveField_relocate (style : Option Casing.Style) (cap : Capability) (d : Field) :
    resolveField style cap (d.relocate f) = (resolveField style cap d).relocate f := by
  rw [resolveField, grantsDefault_relocate]
  simp only [Field.relocate, wireName_relocate]
  rfl

theorem distinct_relocate {α : Type} (name : α → String) (m : α → α)
    (hname : ∀ a, name (m a) = name a) (seen : List String) (as : List α) :
    distinct name seen (as.map m) = (distinct name seen as).map m := by
  induction as generalizing seen with
  | nil => rfl
  | cons a as ih =>
    rw [List.map_cons, distinct, distinct, hname, ih, ih]
    split <;> rfl

theorem mapFirst_relocate {α : Type} (name : α → String) (m : α → α) {g k : α → α}
    (hname : ∀ a, name (m a) = name a) (h : ∀ a, g (m a) = m (k a)) (seen : List String)
    (as : List α) :
    mapFirst name g seen (as.map m) = (mapFirst name k seen as).map m := by
  induction as generalizing seen with
  | nil => rfl
  | cons a as ih =>
    rw [List.map_cons, mapFirst, mapFirst, hname, ih, ih, h]
    split <;> rfl

theorem distinctFields_relocate (s : Struct) :
    (s.relocate f).distinctFields = s.distinctFields.map (·.relocate f) :=
  distinct_relocate Field.name (Field.relocate f) (fun _ => rfl) [] s.fields

theorem marked_relocate (s : Struct) :
    (s.relocate f).marked = s.marked.map fun x => (x.1.relocate f, x.2.relocate f) := by
  simp only [Struct.marked, distinctFields_relocate, List.filterMap_map, List.map_filterMap]
  refine List.filterMap_congr fun d _ => ?_
  show (errorMarker? (d.relocate f)).map _ = _
  rw [errorMarker?_relocate, Option.map_map, Option.map_map]
  rfl

theorem errorName?_relocate (s : Struct) : (s.relocate f).errorName? = s.errorName? := by
  rw [Struct.errorName?, Struct.errorName?, marked_relocate]
  cases s.marked with
  | nil => rfl
  | cons x more =>
    cases more with
    | nil => rfl
    | cons y more => rfl

theorem resolveStruct_relocate (s : Struct) :
    resolveStruct (s.relocate f) = (resolveStruct s).relocate f := by
  have hattributes : (s.relocate f).attributes = s.attributes.map (·.relocate f) := rfl
  simp only [resolveStruct, errorName?_relocate, hattributes, typeStyle_relocate]
  refine congrArg (fun fields => ({ s.relocate f with fields } : Struct)) ?_
  refine mapFirst_relocate Field.name (Field.relocate f) (fun _ => rfl) (fun d => ?_) [] s.fields
  have hcapability : (s.relocate f).capability = s.capability := rfl
  simp only [resolveField_relocate, hcapability]
  by_cases hmarked : s.errorName? = some (resolveField (typeStyle s.attributes) s.capability d).name
  · rw [if_pos hmarked]
    exact if_pos hmarked
  · rw [if_neg hmarked]
    exact if_neg hmarked

theorem resolveEnum_relocate (e : Enum) :
    resolveEnum (e.relocate f) = (resolveEnum e).relocate f := by
  have hattributes : (e.relocate f).attributes = e.attributes.map (·.relocate f) := rfl
  simp only [resolveEnum, hattributes, typeStyle_relocate]
  refine congrArg (fun variants => ({ e.relocate f with variants } : Enum)) ?_
  refine mapFirst_relocate Variant.name (Variant.relocate f) (fun _ => rfl) (fun v => ?_) []
    e.variants
  simp only [resolveVariant, Variant.relocate, wireName_relocate]

theorem resolveItem_relocate (i : Item) :
    resolveItem (i.relocate f) = (resolveItem i).relocate f := by
  cases i with
  | struct s => exact congrArg Item.struct (resolveStruct_relocate s)
  | enum e => exact congrArg Item.enum (resolveEnum_relocate e)

theorem resolveEndpoint_relocate (e : Endpoint) :
    resolveEndpoint (e.relocate f) = (resolveEndpoint e).relocate f := by
  simp only [resolveEndpoint, withCapabilities_relocate]
  simp only [Endpoint.relocate, Method.relocate, List.map_map, Function.comp_def,
    resolveItem_relocate]

end Schema
end EndpointDsl
