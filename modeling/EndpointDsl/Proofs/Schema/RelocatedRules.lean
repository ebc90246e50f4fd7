import EndpointDsl.Proofs.Schema.Relocation

/-!
The rules on declarations whose places are moved.

A rule compares names, routes, roles, types and attributes, and reports at the place of the
declaration or attribute at fault.  So it finds the same faults after a move, at the moved places
and in the same order.
-/

namespace EndpointDsl
namespace Schema

variable {f : Location → Location}

/-! ## Members -/

theorem typeAttributeErrors_relocate (owner : Owner) (styled : Bool) (attributes : List Attribute) :
    typeAttributeErrors owner styled (attributes.map (·.relocate f)) =
      (typeAttributeErrors owner styled attributes).map (·.relocate f) := by
  induction attributes generalizing styled with
  | nil => rfl
  | cons a attributes ih =>
    obtain ⟨kind, scope, location⟩ := a
    cases kind with
    | renameAll style =>
      simp only [List.map_cons, Attribute.relocate, typeAttributeErrors] at ih ⊢
      split
      · simp [ih, Located.relocate]
      · split
        · simp [ih]
        · simp [ih, Located.relocate]
    | builder => exact ih styled
    | rename name => exact congrArg (List.cons _) (ih styled)
    | isError => exact congrArg (List.cons _) (ih styled)
    | default => exact congrArg (List.cons _) (ih styled)

theorem memberAttributeErrors_relocate (owner : Owner) (renamed : Bool)
    (attributes : List Attribute) :
    memberAttributeErrors owner renamed (attributes.map (·.relocate f)) =
      (memberAttributeErrors owner renamed attributes).map (·.relocate f) := by
  induction attributes generalizing renamed with
  | nil => rfl
  | cons a attributes ih =>
    obtain ⟨kind, scope, location⟩ := a
    cases scope with
    | type => cases kind <;> exact ih renamed
    | field =>
      cases kind with
      | rename name =>
        simp only [List.map_cons, Attribute.relocate, memberAttributeErrors] at ih ⊢
        split
        · simp [ih, Located.relocate]
        · split
          · simp [ih, Located.relocate]
          · simp [ih]
      | isError => exact ih renamed
      | default => exact ih renamed
      | renameAll style => exact congrArg (List.cons _) (ih renamed)
      | builder => exact congrArg (List.cons _) (ih renamed)

def Member.relocate (f : Location → Location) (m : Member) : Member :=
  { m with location := f m.location }

theorem clashErrors_relocate (owner : Owner) (wires attrs : List (String × String))
    (members : List Member) :
    clashErrors owner wires attrs (members.map (·.relocate f)) =
      (clashErrors owner wires attrs members).map (·.relocate f) := by
  induction members generalizing wires attrs with
  | nil => rfl
  | cons m members ih =>
    have hwire : wireClash owner wires (m.relocate f) =
        (wireClash owner wires m).map (·.relocate f) := by
      simp only [wireClash, Member.relocate]
      cases lookup? m.wire wires <;> rfl
    have hattr : attributeClash owner attrs (m.relocate f) =
        (attributeClash owner attrs m).map (·.relocate f) := by
      simp only [attributeClash, Member.relocate]
      cases lookup? (Name.attributeName m.name) attrs with
      | none => rfl
      | some other => by_cases h : other = m.name <;> simp [h, Located.relocate]
    rw [List.map_cons, clashErrors, clashErrors, hwire, hattr, List.map_append, List.map_append]
    exact congrArg _ (ih _ _)

theorem defaultErrors_relocate (owner : Owner) (decoded : Bool) (d : Field) :
    defaultErrors owner decoded (d.relocate f) =
      (defaultErrors owner decoded d).map (·.relocate f) := by
  rw [defaultErrors, defaultErrors, defaultMarkers_relocate]
  cases defaultMarkers d with
  | nil => rfl
  | cons marker extra =>
    have htype : (d.relocate f).type = d.type := rfl
    simp only [List.map_cons, List.map_append, List.map_map, htype]
    refine congrArg₂ (· ++ ·) rfl ?_
    cases decoded with
    | false => rfl
    | true =>
      cases zeroBlocker? d.type <;> rfl

theorem fieldErrors_relocate (owner : Owner) (cap : Capability) (names : List String)
    (fields : List Field) :
    fieldErrors owner cap names (fields.map (·.relocate f)) =
      (fieldErrors owner cap names fields).map (·.relocate f) := by
  induction fields generalizing names with
  | nil => rfl
  | cons d fields ih =>
    have hname : (d.relocate f).name = d.name := rfl
    have hattributes : (d.relocate f).attributes = d.attributes.map (·.relocate f) := rfl
    rw [List.map_cons, fieldErrors, fieldErrors, hname, hattributes,
      memberAttributeErrors_relocate, defaultErrors_relocate, ih, ih]
    split
    · rfl
    · rw [List.map_append, List.map_append]

theorem markerErrors_relocate (s : Struct) :
    markerErrors (s.relocate f) = (markerErrors s).map (·.relocate f) := by
  have hcapability : (s.relocate f).capability = s.capability := rfl
  have howner : (s.relocate f).owner = s.owner := rfl
  rw [markerErrors, markerErrors, marked_relocate, hcapability, howner]
  cases s.marked with
  | nil => rfl
  | cons x extra =>
    cases s.capability.decode with
    | false => rfl
    | true => simp [Located.relocate, Attribute.relocate]

theorem members_struct_relocate (s : Struct) :
    (s.relocate f).members = s.members.map (·.relocate f) := by
  have hattributes : (s.relocate f).attributes = s.attributes.map (·.relocate f) := rfl
  simp only [Struct.members, distinctFields_relocate, hattributes, typeStyle_relocate,
    List.map_map]
  refine List.map_congr_left fun d _ => ?_
  simp [Field.relocate, Member.relocate, wireName_relocate]

theorem structErrors_relocate (s : Struct) :
    structErrors (s.relocate f) = (structErrors s).map (·.relocate f) := by
  rw [structErrors, structErrors, members_struct_relocate, markerErrors_relocate,
    clashErrors_relocate, List.map_append, List.map_append, List.map_append,
    ← typeAttributeErrors_relocate, ← fieldErrors_relocate]
  rfl

theorem variantAttributeErrors_relocate (owner : Owner) (attributes : List Attribute) :
    variantAttributeErrors owner (attributes.map (·.relocate f)) =
      (variantAttributeErrors owner attributes).map (·.relocate f) := by
  simp only [variantAttributeErrors, List.filterMap_map, List.map_filterMap]
  refine List.filterMap_congr fun a _ => ?_
  obtain ⟨kind, scope, location⟩ := a
  cases kind <;> rfl

theorem variantErrors_relocate (owner : Owner) (names : List String) (variants : List Variant) :
    variantErrors owner names (variants.map (·.relocate f)) =
      (variantErrors owner names variants).map (·.relocate f) := by
  induction variants generalizing names with
  | nil => rfl
  | cons v variants ih =>
    have hname : (v.relocate f).name = v.name := rfl
    have hattributes : (v.relocate f).attributes = v.attributes.map (·.relocate f) := rfl
    rw [List.map_cons, variantErrors, variantErrors, hname, hattributes,
      variantAttributeErrors_relocate, memberAttributeErrors_relocate, ih, ih]
    split
    · rfl
    · rw [List.map_append, List.map_append]

theorem members_enum_relocate (e : Enum) :
    (e.relocate f).members = e.members.map (·.relocate f) := by
  have hattributes : (e.relocate f).attributes = e.attributes.map (·.relocate f) := rfl
  have hvariants : distinct Variant.name [] (e.relocate f).variants =
      (distinct Variant.name [] e.variants).map (·.relocate f) :=
    distinct_relocate Variant.name (Variant.relocate f) (fun _ => rfl) [] e.variants
  simp only [Enum.members, hvariants, hattributes, typeStyle_relocate, List.map_map]
  refine List.map_congr_left fun v _ => ?_
  simp [Variant.relocate, Member.relocate, wireName_relocate]

theorem enumErrors_relocate (e : Enum) :
    enumErrors (e.relocate f) = (enumErrors e).map (·.relocate f) := by
  have hattributes : (e.relocate f).attributes = e.attributes.map (·.relocate f) := rfl
  have hvariants : (e.relocate f).variants = e.variants.map (·.relocate f) := rfl
  have howner : (e.relocate f).owner = e.owner := rfl
  rw [enumErrors, enumErrors, members_enum_relocate, hattributes, hvariants, howner,
    typeAttributeErrors_relocate, variantErrors_relocate, clashErrors_relocate,
    List.isEmpty_map, List.map_append, List.map_append, List.filter_map, List.map_map]
  refine congrArg₂ (· ++ ·) (congrArg₂ (· ++ ·) rfl ?_) ?_
  · rw [List.map_map]
    rfl
  · split
    · rfl
    · rw [List.map_append]

theorem memberErrors_relocate (i : Item) :
    memberErrors (i.relocate f) = (memberErrors i).map (·.relocate f) := by
  cases i with
  | struct s => exact structErrors_relocate s
  | enum e => exact enumErrors_relocate e

/-! ## Methods -/

theorem referenceErrors_relocate (endpoint : String) (entries : List Entry) (methodIndex : Nat)
    (m : Method) (i : Item) :
    referenceErrors endpoint (entries.map (·.relocate f)) methodIndex (m.relocate f)
      (i.relocate f) = (referenceErrors endpoint entries methodIndex m i).map (·.relocate f) := by
  simp only [referenceErrors, Item.references_relocate, List.filterMap_map, List.map_filterMap]
  refine List.filterMap_congr fun r _ => ?_
  simp only [Function.comp_apply, resolveIndex?_relocate, Reference.relocate]
  cases resolveIndex? entries methodIndex r.name <;> rfl

theorem roleErrors_relocate (m : Method) (roles : List Role) (i : Item) :
    roleErrors (m.relocate f) roles (i.relocate f) = (roleErrors m roles i).map (·.relocate f) := by
  rw [roleErrors, roleErrors, Item.role?_relocate, Item.location_relocate]
  cases i.role? with
  | none => rfl
  | some role =>
    simp only
    split <;> rfl

theorem itemErrors_relocate (endpoint : String) (entries : List Entry) (methodIndex : Nat)
    (m : Method) (names : List String) (roles : List Role) (items : List Item) :
    itemErrors endpoint (entries.map (·.relocate f)) methodIndex (m.relocate f) names roles
        (items.map (·.relocate f)) =
      (itemErrors endpoint entries methodIndex m names roles items).map (·.relocate f) := by
  induction items generalizing names roles with
  | nil => rfl
  | cons i items ih =>
    rw [List.map_cons, itemErrors, itemErrors, roleErrors_relocate, referenceErrors_relocate,
      Item.name_relocate, Item.role?_relocate, Item.location_relocate, ih, List.map_append,
      List.map_append, List.map_append]
    congr 3
    split <;> rfl

theorem structures_relocate (m : Method) :
    (m.relocate f).structures = m.structures.map (·.relocate f) := by
  simp only [Method.structures, Method.relocate, List.filterMap_map, List.map_filterMap]
  exact List.filterMap_congr fun i _ => i.struct?_relocate

theorem findRole?_relocate (m : Method) (role : Option Role) :
    (m.relocate f).findRole? role = (m.findRole? role).map (·.relocate f) := by
  rw [Method.findRole?, structures_relocate, List.find?_map]
  rfl

theorem bodyConflict_relocate (m : Method) (first second : Role) (what : String) :
    bodyConflict (m.relocate f) first second what =
      (bodyConflict m first second what).map (·.relocate f) := by
  rw [bodyConflict, bodyConflict, findRole?_relocate, findRole?_relocate]
  cases m.findRole? (some first) <;> cases m.findRole? (some second) <;> rfl

theorem covering_relocate (m : Method) (name : String) :
    covering (m.relocate f) name =
      (covering m name).map fun x => (x.1.relocate f, x.2.relocate f) := by
  simp only [covering, structures_relocate, List.filter_map, List.flatMap_map, List.map_flatMap]
  refine congrArg₂ List.flatMap (funext fun s => ?_) rfl
  have hfields : (s.relocate f).fields = s.fields.map (·.relocate f) := rfl
  rw [hfields, List.filter_map, List.map_map, List.map_map]
  rfl

theorem coverageErrors_relocate (m : Method) (name : String) :
    coverageErrors (m.relocate f) name = (coverageErrors m name).map (·.relocate f) := by
  rw [coverageErrors, coverageErrors, covering_relocate]
  cases covering m name with
  | nil => rfl
  | cons x more =>
    cases more with
    | nil =>
      have hoptional : (x.2.relocate f).isOptional = x.2.isOptional := rfl
      have htype : (x.2.relocate f).type = x.2.type := rfl
      simp only [List.map_cons, List.map_nil, hoptional, htype]
      split
      · rfl
      · split <;> rfl
    | cons y more =>
      simp only [List.map_cons, List.map_map]
      rfl

theorem pathErrors_relocate (m : Method) :
    pathErrors (m.relocate f) = (pathErrors m).map (·.relocate f) := by
  have hpath : (m.relocate f).path = m.path := rfl
  have hlocation : (m.relocate f).location = f m.location := rfl
  simp only [pathErrors, hpath, hlocation, List.map_append, List.map_filterMap, List.map_flatMap]
  refine congrArg₂ (· ++ ·) (List.filterMap_congr fun name _ => ?_) ?_
  · split <;> rfl
  · exact congrArg₂ List.flatMap (funext (coverageErrors_relocate m)) rfl

theorem methodErrorsFrom_relocate (endpoint : String) (entries : List Entry) (index : Nat)
    (ms : List Method) :
    methodErrorsFrom endpoint (entries.map (·.relocate f)) index (ms.map (·.relocate f)) =
      (methodErrorsFrom endpoint entries index ms).map (·.relocate f) := by
  induction ms generalizing index with
  | nil => rfl
  | cons m ms ih =>
    have hitems : (m.relocate f).items = m.items.map (·.relocate f) := rfl
    rw [List.map_cons, methodErrorsFrom, methodErrorsFrom, methodErrors, methodErrors, hitems,
      itemErrors_relocate, bodyConflict_relocate, bodyConflict_relocate, pathErrors_relocate, ih,
      List.map_append, List.map_append, List.map_append, List.map_append]

/-! ## Names across an endpoint and a unit -/

theorem classNameErrors_relocate (m : Method) (classes : List String) (items : List Item) :
    classNameErrors (m.relocate f) classes (items.map (·.relocate f)) =
      ((classNameErrors m classes items).1.map (·.relocate f),
        (classNameErrors m classes items).2) := by
  induction items generalizing classes with
  | nil => rfl
  | cons i items ih =>
    have hclass : (m.relocate f).className i.name = m.className i.name := rfl
    simp only [List.map_cons, classNameErrors, Item.name_relocate, hclass, ih,
      Item.location_relocate]
    split <;> rfl

theorem methodNameErrors_relocate (endpoint : String) (taken : Taken) (ms : List Method) :
    methodNameErrors endpoint taken (ms.map (·.relocate f)) =
      (methodNameErrors endpoint taken ms).map (·.relocate f) := by
  induction ms generalizing taken with
  | nil => rfl
  | cons m ms ih =>
    have hverb : (m.relocate f).verb = m.verb := rfl
    have hpath : (m.relocate f).path = m.path := rfl
    have hidentifier : (m.relocate f).identifier = m.identifier := rfl
    have hdescribe : (m.relocate f).describe = m.describe := rfl
    have hitems : (m.relocate f).items = m.items.map (·.relocate f) := rfl
    have hlocation : (m.relocate f).location = f m.location := rfl
    simp only [List.map_cons, methodNameErrors, hverb, hpath, hidentifier, hdescribe, hitems,
      hlocation, classNameErrors_relocate, ih]
    split
    · rfl
    · split
      · rfl
      · rw [List.map_append]

theorem endpointNameErrors_relocate (names : List String) (modules : List (String × String))
    (es : List Endpoint) :
    endpointNameErrors names modules (es.map (·.relocate f)) =
      (endpointNameErrors names modules es).map (·.relocate f) := by
  induction es generalizing names modules with
  | nil => rfl
  | cons e es ih =>
    have hname : (e.relocate f).name = e.name := rfl
    have hmodule : (e.relocate f).moduleName = e.moduleName := rfl
    have hlocation : (e.relocate f).location = f e.location := rfl
    simp only [List.map_cons, endpointNameErrors, hname, hmodule, hlocation, ih]
    split
    · rfl
    · split <;> rfl

theorem endpointErrors_relocate (e : Endpoint) :
    endpointErrors (e.relocate f) = (endpointErrors e).map (·.relocate f) := by
  have hmethods : (e.relocate f).methods = e.methods.map (·.relocate f) := rfl
  have hname : (e.relocate f).name = e.name := rfl
  have hitems : ∀ e : Endpoint, (e.relocate f).items = e.items.map (·.relocate f) := by
    intro e
    simp only [Endpoint.items, Endpoint.relocate, List.flatMap_map, List.map_flatMap]
    rfl
  rw [endpointErrors, endpointErrors, withCapabilities_relocate, hitems, hmethods, hname,
    entries_relocate, methodNameErrors_relocate, methodErrorsFrom_relocate, List.map_append,
    List.map_append, List.flatMap_map, List.map_flatMap]
  simp only [memberErrors_relocate]

/-! ## Analysis -/

/-- What the rules find, in the order in which they are checked. -/
def ruleErrors (s : Schema) : List SemanticError :=
  endpointNameErrors [] [] s.endpoints ++ s.endpoints.flatMap endpointErrors

theorem errors_analyze (s : Schema) : (analyze s).errors = bySource (ruleErrors s) := rfl

theorem ruleErrors_relocate (s : Schema) :
    ruleErrors (s.relocate f) = (ruleErrors s).map (·.relocate f) := by
  simp only [ruleErrors, Schema.relocate, endpointNameErrors_relocate, List.map_append,
    List.flatMap_map, List.map_flatMap, endpointErrors_relocate]

/-- Sorting sees the order of the places only. -/
theorem bySource_relocate {α : Type} {errors : List (Located α)}
    (h : ∀ a ∈ errors, ∀ b ∈ errors,
      (f a.location).offset ≤ (f b.location).offset ↔ a.location.offset ≤ b.location.offset) :
    bySource (errors.map (·.relocate f)) = (bySource errors).map (·.relocate f) := by
  refine (List.map_mergeSort fun a ha b hb => ?_).symm
  exact decide_eq_decide.mpr (h a ha b hb).symm

end Schema
end EndpointDsl
