import EndpointDsl.Client.Generate
import EndpointDsl.Proofs.Schema.Resolution

/-!
Generation succeeds on what analysis makes of a well-formed schema.

Every refusal of generation answers to one rule or to one fact about built schemas: unknown scalars
to `TypeDesc.Known`, missing wire names to resolution, missing zero values to `FieldDefault`,
missing capabilities to `Capability.Usable`, unresolved names to `Method.WellFormed.references`,
parameters without a field to `Method.WellFormed.covered`, and enums without variants to
`Enum.WellFormed.inhabited`.
-/

namespace EndpointDsl
namespace Client

open Schema (Capability Endpoint Entry Item Method Struct Enum Field Variant TypeDesc Scalar
  HasZero)

/-! ## Types and zero values -/

/-- A namer finds a class for each of the names. -/
def Names (className : String → Gen String) (names : List String) : Prop :=
  ∀ name ∈ names, ∃ cls, className name = .ok cls

theorem exists_ofType {className : String → Gen String} {type : TypeDesc} (hknown : type.Known)
    (hnames : Names className type.references) : ∃ t, FieldType.ofType className type = .ok t := by
  induction type with
  | primitive name =>
    obtain ⟨kind, hkind⟩ := Option.isSome_iff_exists.mp hknown
    exact ⟨.scalar kind, by rw [FieldType.ofType, hkind]⟩
  | collection item ih =>
    obtain ⟨t, ht⟩ := ih hknown hnames
    exact ⟨.list t, by rw [FieldType.ofType, ht]; rfl⟩
  | reference name =>
    obtain ⟨cls, hcls⟩ := hnames name List.mem_cons_self
    exact ⟨.model cls, by rw [FieldType.ofType, hcls]; rfl⟩
  | optional inner ih =>
    obtain ⟨t, ht⟩ := ih hknown hnames
    exact ⟨.optional t, by rw [FieldType.ofType, ht]; rfl⟩

theorem exists_ofOptionalType {className : String → Gen String} {type : TypeDesc}
    (hknown : type.Known) (hnames : Names className type.references) :
    ∃ t, FieldType.ofOptionalType className type = .ok t := by
  obtain ⟨t, ht⟩ := exists_ofType hknown hnames
  by_cases hoptional : type.isOptional = true
  · exact ⟨t, by rw [FieldType.ofOptionalType, if_pos hoptional, ht]⟩
  · exact ⟨.optional t, by rw [FieldType.ofOptionalType, if_neg hoptional, ht]; rfl⟩

theorem mem_scalars_of_ofName? {name : String} {kind : Scalar}
    (h : Scalar.ofName? name = some kind) : (name, kind) ∈ Schema.scalars := by
  obtain ⟨⟨n, k⟩, hfind, rfl⟩ := Option.map_eq_some_iff.mp h
  have hname : n = name := by simpa using List.find?_some hfind
  rw [← hname]
  exact List.mem_of_find?_eq_some hfind

/-- Only dates and times have no zero value among the scalars. -/
theorem exists_zero_of_mem_scalars :
    ∀ p ∈ Schema.scalars, p.1 ≠ "Date" → p.1 ≠ "DateTime" → (Zero.ofScalar? p.2).isSome = true := by
  decide

theorem exists_zero {type : TypeDesc} (hknown : type.Known) (hzero : HasZero type)
    (hoptional : type.isOptional = false) : ∃ z, Zero.ofType type = .ok z := by
  cases type with
  | primitive name =>
    obtain ⟨kind, hkind⟩ := Option.isSome_iff_exists.mp hknown
    obtain ⟨z, hz⟩ := Option.isSome_iff_exists.mp
      (exists_zero_of_mem_scalars _ (mem_scalars_of_ofName? hkind) hzero.1 hzero.2)
    refine ⟨z, ?_⟩
    rw [Zero.ofType, hkind, Option.bind_some, hz]
  | collection item => exact ⟨.list, rfl⟩
  | reference name => exact hzero.elim
  | optional inner => cases hoptional

/-! ## Classes -/

theorem exists_structBase {s : Struct} (h : s.capability.Usable) :
    ∃ base, structBase s = .ok base := by
  unfold structBase
  by_cases hurl : s.capability.urlEncoded = true
  · exact ⟨.queryEncodable, by rw [if_pos hurl]⟩
  · rw [if_neg hurl]
    rcases h with hencode | hdecode
    · cases hdecode : s.capability.decode with
      | true => exact ⟨.both, by simp [hencode]⟩
      | false => exact ⟨.encodable, by simp [hencode]⟩
    · cases hencode : s.capability.encode with
      | true => exact ⟨.both, by simp [hdecode]⟩
      | false => exact ⟨.decodable, by simp [hdecode]⟩

theorem exists_fieldFallback {f : Field} (hknown : f.type.Known)
    (hzero : f.hasDefault = true → HasZero f.type) : ∃ d, fieldFallback f = .ok d := by
  unfold fieldFallback
  by_cases hoptional : f.isOptional = true
  · exact ⟨.absent, by rw [if_pos hoptional]⟩
  · by_cases hdefault : f.hasDefault = true
    · obtain ⟨z, hz⟩ := exists_zero hknown (hzero hdefault) (Bool.eq_false_iff.mpr hoptional)
      exact ⟨.zero z, by rw [if_neg hoptional, if_pos hdefault, hz]; rfl⟩
    · exact ⟨.required, by rw [if_neg hoptional, if_neg hdefault]⟩

theorem fieldDef_eq_ok_iff {className : String → Gen String} {struct : String} {f : Field}
    {d : FieldDef} :
    fieldDef className struct f = .ok d ↔
      ∃ wire fieldType fallback, f.wireName = some wire ∧
        FieldType.ofType className f.type = .ok fieldType ∧ fieldFallback f = .ok fallback ∧
        d = { attr := Name.attributeName f.name, fieldType, wire, fallback } := by
  unfold fieldDef
  cases f.wireName with
  | none =>
    constructor
    · intro h; cases h
    · rintro ⟨wire, _, _, hwire, _⟩; cases hwire
  | some wire =>
    simp only [bind_eq_ok_iff]
    constructor
    · rintro ⟨_, hwire, t, ht, b, hb, hd⟩
      cases hwire; cases hd
      exact ⟨wire, t, b, rfl, ht, hb, rfl⟩
    · rintro ⟨_, t, b, hwire, ht, hb, rfl⟩
      cases hwire
      exact ⟨wire, rfl, t, ht, b, hb, rfl⟩

theorem variantDef_eq_ok_iff {className : String → Gen String} {enum : String} {v : Variant}
    {d : FieldDef} :
    variantDef className enum v = .ok d ↔
      ∃ wire fieldType, v.wireName = some wire ∧ variantType className v = .ok fieldType ∧
        d = { attr := Name.attributeName v.name, fieldType, wire, fallback := .absent } := by
  unfold variantDef
  cases v.wireName with
  | none =>
    constructor
    · intro h; cases h
    · rintro ⟨wire, _, hwire, _⟩; cases hwire
  | some wire =>
    simp only [bind_eq_ok_iff]
    constructor
    · rintro ⟨_, hwire, t, ht, hd⟩
      cases hwire; cases hd
      exact ⟨wire, t, rfl, ht, rfl⟩
    · rintro ⟨_, t, hwire, ht, rfl⟩
      cases hwire
      exact ⟨wire, rfl, t, ht, rfl⟩

/-- A resolved field of a built structure becomes a field of the class. -/
theorem exists_fieldDef {className : String → Gen String} {s : Struct} {f : Field}
    (hbuilt : f.Built)
    (hnames : Names className f.type.references) :
    ∃ d, fieldDef className s.name (s.resolved f) = .ok d := by
  obtain ⟨t, ht⟩ := exists_ofType hbuilt.known hnames
  obtain ⟨b, hb⟩ := exists_fieldFallback (f := s.resolved f) hbuilt.known fun hdefault => by
    have hgranted : (f.hasDefault || Schema.grantsDefault s.capability.decode f) = true := hdefault
    rw [hbuilt.noDefault, Bool.false_or] at hgranted
    exact Schema.hasZero_of_grantsDefault hgranted
  exact ⟨_, fieldDef_eq_ok_iff.mpr ⟨_, t, b, rfl, ht, hb, rfl⟩⟩

theorem exists_variantDef {className : String → Gen String} {style : Option Casing.Style}
    {enum : String} {v : Variant} (hbuilt : v.Built)
    (hnames : ∀ type, v.payload = some type → Names className type.references) :
    ∃ d, variantDef className enum (Schema.resolveVariant style v) = .ok d := by
  have htype : ∃ t, variantType className (Schema.resolveVariant style v) = .ok t := by
    cases hpayload : v.payload with
    | none => exact ⟨.unit, by simp [variantType, Schema.resolveVariant, hpayload]⟩
    | some type =>
      obtain ⟨t, ht⟩ := exists_ofOptionalType (hbuilt.known type hpayload) (hnames type hpayload)
      exact ⟨t, by simp [variantType, Schema.resolveVariant, hpayload, ht]⟩
  obtain ⟨t, ht⟩ := htype
  exact ⟨_, variantDef_eq_ok_iff.mpr ⟨_, t, rfl, ht, rfl⟩⟩

/-- What the class of a structure is made of. -/
theorem structClass_eq_ok_iff {className : String → Gen String} {m : Method} {s : Struct}
    {c : ClassDef} :
    structClass className m s = .ok c ↔
      ∃ base fields, structBase s = .ok base ∧
        s.fields.mapM (fieldDef className s.name) = .ok fields ∧
        c = {
          name := m.className s.name
          base
          doc := Docs.struct m s
          fields
          builder := s.isBuilder
          omitted := (s.fields.filter (·.omitIfAbsent)).map fun f => Name.attributeName f.name
          errorAttr := errorAttr? s } := by
  unfold structClass
  simp only [bind_eq_ok_iff]
  constructor
  · rintro ⟨base, hbase, fields, hfields, hc⟩
    cases hc
    exact ⟨base, fields, hbase, hfields, rfl⟩
  · rintro ⟨base, fields, hbase, hfields, rfl⟩
    exact ⟨base, hbase, fields, hfields, rfl⟩

/-- What the class of an enum is made of. -/
theorem enumClass_eq_ok_iff {className : String → Gen String} {m : Method} {e : Enum}
    {c : ClassDef} :
    enumClass className m e = .ok c ↔
      ∃ fields, e.variants ≠ [] ∧ e.capability.Usable ∧
        e.variants.mapM (variantDef className e.name) = .ok fields ∧
        c = {
          name := m.className e.name
          base := .enum
          doc := Docs.enum m e
          fields
          units := (e.variants.filter (·.payload.isNone)).map fun v => Name.attributeName v.name
          payloadRequired :=
            (e.variants.filter hasRequiredPayload).map fun v => Name.attributeName v.name } := by
  unfold enumClass
  cases hvariants : e.variants.isEmpty with
  | true =>
    have hempty : e.variants = [] := List.isEmpty_iff.mp hvariants
    constructor
    · intro h; cases h
    · rintro ⟨_, hne, -⟩
      exact absurd hempty hne
  | false =>
    have hne : e.variants ≠ [] := by
      intro hempty
      rw [hempty] at hvariants
      cases hvariants
    cases husable : e.capability.encode || e.capability.decode with
    | false =>
      constructor
      · intro h; cases h
      · rintro ⟨_, -, hc, -⟩
        rcases hc with hc | hc
        · rw [hc] at husable; cases husable
        · rw [hc, Bool.or_true] at husable; cases husable
    | true =>
      simp only [Bool.false_eq_true, Bool.not_true, if_false, bind_eq_ok_iff]
      constructor
      · rintro ⟨fields, hfields, hc⟩
        cases hc
        exact ⟨fields, hne, by simpa [Capability.Usable] using husable, hfields, rfl⟩
      · rintro ⟨fields, -, -, hfields, rfl⟩
        exact ⟨fields, hfields, rfl⟩

theorem exists_itemClass {className : String → Gen String} {m : Method} {i i' : Item}
    (hbuilt : i.Built) (h : i.Resolves i')
    (hnames : ∀ r ∈ i.references, ∃ cls, className r.name = .ok cls) :
    ∃ c, itemClass className m i' = .ok c := by
  obtain ⟨c, husable, hwf, rfl⟩ := h
  cases i with
  | struct s =>
    obtain ⟨base, hbase⟩ := exists_structBase (s := { s with capability := c }) husable
    obtain ⟨fields, hfields⟩ := exists_mapM_eq_ok
      (f := fieldDef className s.name)
      (l := s.fields.map (Struct.resolved { s with capability := c })) fun f' hf' => by
        obtain ⟨f, hf, rfl⟩ := List.mem_map.mp hf'
        refine exists_fieldDef (s := { s with capability := c }) (hbuilt f hf) fun name hname => ?_
        exact hnames ⟨name, f.location⟩
          (List.mem_flatMap.mpr ⟨f, hf, List.mem_map.mpr ⟨name, hname, rfl⟩⟩)
    refine ⟨_, structClass_eq_ok_iff.mpr ⟨base, fields, hbase, ?_, rfl⟩⟩
    rw [Schema.resolveStruct_eq hwf]
    exact hfields
  | enum e =>
    obtain ⟨fields, hfields⟩ := exists_mapM_eq_ok
      (f := variantDef className e.name)
      (l := e.variants.map (Schema.resolveVariant (Schema.typeStyle e.attributes))) fun v' hv' => by
        obtain ⟨v, hv, rfl⟩ := List.mem_map.mp hv'
        refine exists_variantDef (hbuilt v hv) fun type htype name hname => ?_
        refine hnames ⟨name, v.location⟩ (List.mem_flatMap.mpr ⟨v, hv, ?_⟩)
        rw [htype]
        exact List.mem_map.mpr ⟨name, hname, rfl⟩
    refine ⟨_, enumClass_eq_ok_iff.mpr ⟨fields, ?_, husable, ?_, rfl⟩⟩
    · rw [Schema.resolveEnum_eq hwf]
      exact fun hempty => hwf.inhabited (List.map_eq_nil_iff.mp hempty)
    · rw [Schema.resolveEnum_eq hwf]
      exact hfields

/-! ## Functions -/

/-- With at most one structure per role, a role finds the structure that has it. -/
theorem find?_role_of_nodup {structures : List Struct} {s : Struct} {role : Role}
    (hroles : (structures.filterMap (·.role)).Nodup) (hs : s ∈ structures)
    (hrole : s.role = some role) :
    structures.find? (·.role == some role) = some s := by
  induction structures with
  | nil => cases hs
  | cons t rest ih =>
    rcases List.mem_cons.mp hs with rfl | hrest
    · rw [List.find?_cons_of_pos (by simp [hrole])]
    · have htail : (rest.filterMap (·.role)).Nodup :=
        hroles.sublist ((List.sublist_cons_self t rest).filterMap _)
      have hne : t.role ≠ some role := by
        intro ht
        rw [List.filterMap_cons_some ht, List.nodup_cons] at hroles
        exact hroles.1 (List.mem_filterMap.mpr ⟨s, hrest, hrole⟩)
      rw [List.find?_cons_of_neg (by simpa using hne)]
      exact ih htail hrest

theorem filterMap_role_structures (m : Method) : m.structures.filterMap (·.role) = m.roles := by
  rw [Method.structures, Schema.Method.roles, List.filterMap_filterMap]
  refine List.filterMap_congr fun i _ => ?_
  cases i with
  | struct s => rfl
  | enum e => rfl

theorem exists_pathValue {m : Method} {s : Struct} {role : Role} {p : String}
    (hroles : m.roles.Nodup)
    (hs : s ∈ m.structures) (hrole : s.role = some role) (hpath : role ∈ Schema.pathRoles)
    (hp : p ∈ s.fields.map (·.name)) : ∃ v, pathValue m p = .ok v := by
  have hfind : m.findRole? (some role) = some s :=
    find?_role_of_nodup (by rwa [filterMap_role_structures]) hs hrole
  have hcovering : (coveringRole? m p).isSome = true := by
    rw [coveringRole?, List.find?_isSome]
    refine ⟨role, hpath, ?_⟩
    rw [hfind]
    obtain ⟨f, hf, hname⟩ := List.mem_map.mp hp
    exact List.any_eq_true.mpr ⟨f, hf, by simpa using hname⟩
  obtain ⟨covering, hcovering⟩ := Option.isSome_iff_exists.mp hcovering
  exact ⟨_, by rw [pathValue, hcovering]⟩

theorem roles_eq_of_resolves {m m' : Method} (h : m.Resolves m') : m'.roles = m.roles := by
  obtain ⟨items, hitems, rfl⟩ := h
  have hroles : m.items.map Item.role? = items.map Item.role? :=
    map_eq_of_forall₂ hitems fun i i' hi => hi.role?_eq.symm
  show items.filterMap Item.role? = m.items.filterMap Item.role?
  have hid : ∀ xs : List Item, xs.filterMap Item.role? = (xs.map Item.role?).filterMap id :=
    fun xs => by rw [List.filterMap_map, Function.id_comp]
  rw [hid, hid, hroles]

theorem exists_pathValue_of_resolves {e : Endpoint} {m m' : Method} {p : String}
    (hwf : m.WellFormed e) (h : m.Resolves m') (hp : p ∈ m.path.parameters) :
    ∃ v, pathValue m' p = .ok v := by
  obtain ⟨f, scalar, hfields, -⟩ := hwf.covered p hp
  -- The covering field belongs to a structure with a path role, which resolution keeps.
  have hf : f ∈ m.pathFields.filter (·.name == p) := by
    rw [hfields]
    exact List.mem_cons_self
  obtain ⟨hfield, hname⟩ := List.mem_filter.mp hf
  obtain ⟨s, hs, hsf⟩ := List.mem_flatMap.mp hfield
  obtain ⟨hsm, hfills⟩ := List.mem_filter.mp hs
  obtain ⟨i, hi, hstruct⟩ := List.mem_filterMap.mp hsm
  cases i with
  | enum e => cases hstruct
  | struct t =>
    cases hstruct
    have hroles : m'.roles.Nodup := (roles_eq_of_resolves h).symm ▸ hwf.roles
    obtain ⟨items, hitems, rfl⟩ := h
    obtain ⟨i', hi', hresolves⟩ := exists_of_mem_forall₂_left hitems hi
    obtain ⟨s', rfl, hrole', hnames'⟩ := hresolves.struct
    cases hrole : s.role with
    | none => simp [Struct.fillsPath, hrole] at hfills
    | some role =>
      refine exists_pathValue hroles (List.mem_filterMap.mpr ⟨_, hi', rfl⟩)
        (hrole'.trans hrole) ?_ ?_
      · simpa [Struct.fillsPath, hrole] using hfills
      · rw [hnames']
        exact List.mem_map.mpr ⟨f, hsf, by simpa using hname⟩

theorem exists_methodFunctions {e : Endpoint} {m m' : Method} (hwf : m.WellFormed e)
    (h : m.Resolves m') : ∃ functions, methodFunctions m' = .ok functions := by
  have hpath : m'.path = m.path := by
    obtain ⟨items, -, rfl⟩ := h
    rfl
  obtain ⟨values, hvalues⟩ := exists_mapM_eq_ok
    (f := pathValue m') (l := m'.path.distinctParameters) fun p hp => by
      have hparameter := (PathTemplate.mem_firstOccurrences.mp hp).1
      rw [hpath] at hparameter
      exact exists_pathValue_of_resolves hwf h hparameter
  exact ⟨_, bind_eq_ok_iff.mpr ⟨values, hvalues, rfl⟩⟩

/-- The functions that a method can have, each with what it is made from. -/
inductive FunctionOf (m : Method) (values : List PathValue) : FunctionDef → Prop
  | uri (roles : List Role) (query : Option (List String)) :
      FunctionOf m values {
        name := m.identifier ++ "_uri"
        doc := Docs.uri m (m.findRole? (some .query)).isSome
        body := .uri (paramsFor m roles) m.path.raw values query }
  | request (roles uriRoles : List Role) (hasHeader : Bool) (body : Option Role) :
      FunctionOf m values {
        name := s!"build_{m.identifier}_request"
        doc := Docs.request m
        body := .request (paramsFor m roles) m.verb (m.identifier ++ "_uri") uriRoles hasHeader
          body }
  | response {role : Role} {s : Struct} (hs : m.findRole? (some role) = some s) :
      FunctionOf m values {
        name := s!"parse_{m.identifier}_response"
        doc := Docs.response m s
        body := .response (m.className s.name) }
  | headers {s : Struct} (hs : m.findRole? (some .header) = some s) :
      FunctionOf m values {
        name := s!"parse_{m.identifier}_headers"
        doc := Docs.headers m
        body := .headers (m.className s.name) }

theorem functionOf_of_mem {m : Method} {functions : List FunctionDef} {f : FunctionDef}
    (h : methodFunctions m = .ok functions) (hf : f ∈ functions) :
    ∃ values, m.path.distinctParameters.mapM (pathValue m) = .ok values ∧
      FunctionOf m values f := by
  obtain ⟨values, hvalues, h⟩ := bind_eq_ok_iff.mp h
  cases h
  refine ⟨values, hvalues, ?_⟩
  rw [List.mem_append, List.mem_cons, List.mem_cons] at hf
  rcases hf with (rfl | rfl | hresponse) | hheaders
  · exact .uri _ _
  · exact .request _ _ _ _
  · unfold responseFunction at hresponse
    split at hresponse
    · next s hs =>
      obtain rfl := List.mem_singleton.mp hresponse
      rw [Option.orElse_eq_orElse, Option.orElse_eq_or, Option.or_eq_some_iff] at hs
      rcases hs with hs | ⟨-, hs⟩
      · exact .response hs
      · exact .response hs
    · cases hresponse
  · unfold headersFunction at hheaders
    split at hheaders
    · next s hs =>
      obtain rfl := List.mem_singleton.mp hheaders
      exact .headers hs
    · cases hheaders

/-! ## Modules -/

theorem exists_classFor {e : Endpoint} {index : Nat} {name : String} (h : e.Declares name) :
    ∃ cls, classFor e.name e.entries index name = .ok cls := by
  cases hresolve : Schema.resolve? e.entries index name with
  | none =>
    have hindex := Schema.resolve?_eq_none_iff.mp hresolve
    exact absurd h (Schema.resolveIndex?_eq_none_iff_not_declares.mp hindex)
  | some x => exact ⟨_, by rw [classFor, hresolve]⟩

theorem methodParts_eq_ok_iff {endpoint : String} {entries : List Entry} {index : Nat} {m : Method}
    {parts : List ClassDef × List FunctionDef} :
    methodParts endpoint entries index m = .ok parts ↔
      m.items.mapM (itemClass (classFor endpoint entries index) m) = .ok parts.1 ∧
        methodFunctions m = .ok parts.2 := by
  simp only [methodParts, bind_eq_ok_iff]
  constructor
  · intro h
    obtain ⟨classes, hclasses, functions, hfunctions, hparts⟩ := h
    cases hparts
    exact ⟨hclasses, hfunctions⟩
  · intro h
    exact ⟨parts.1, h.1, parts.2, h.2, rfl⟩

/-- The parts of methods whose classes and functions can all be made. -/
theorem exists_partsFrom {endpoint : String} {entries : List Entry} {methods : List Method}
    (hclasses : ∀ m ∈ methods, ∀ index, ∀ i ∈ m.items,
      ∃ c, itemClass (classFor endpoint entries index) m i = .ok c)
    (hfunctions : ∀ m ∈ methods, ∃ functions, methodFunctions m = .ok functions) (index : Nat) :
    ∃ parts, partsFrom endpoint entries index methods = .ok parts := by
  induction methods generalizing index with
  | nil => exact ⟨_, rfl⟩
  | cons m rest ih =>
    obtain ⟨classes, hc⟩ := exists_mapM_eq_ok (hclasses m List.mem_cons_self index)
    obtain ⟨functions, hf⟩ := hfunctions m List.mem_cons_self
    obtain ⟨others, ho⟩ := ih (fun m' hm' => hclasses m' (List.mem_cons_of_mem m hm'))
      (fun m' hm' => hfunctions m' (List.mem_cons_of_mem m hm')) (index + 1)
    have hparts : methodParts endpoint entries index m = .ok (classes, functions) :=
      methodParts_eq_ok_iff.mpr ⟨hc, hf⟩
    exact ⟨_, bind_eq_ok_iff.mpr ⟨_, hparts, bind_eq_ok_iff.mpr ⟨others, ho, rfl⟩⟩⟩

/-- The step of the walk along the methods of an endpoint. -/
theorem partsFrom_cons_eq_ok {endpoint : String} {entries : List Entry} {index : Nat} {m : Method}
    {rest : List Method} {parts : List ClassDef × List FunctionDef}
    (h : partsFrom endpoint entries index (m :: rest) = .ok parts) :
    ∃ own others, methodParts endpoint entries index m = .ok own ∧
      partsFrom endpoint entries (index + 1) rest = .ok others ∧
      parts = (own.1 ++ others.1, own.2 ++ others.2) := by
  obtain ⟨own, hown, h⟩ := bind_eq_ok_iff.mp h
  obtain ⟨others, hothers, h⟩ := bind_eq_ok_iff.mp h
  cases h
  exact ⟨own, others, hown, hothers, rfl⟩

/-- The classes belong to the entries one by one. -/
theorem classes_partsFrom {endpoint : String} {entries : List Entry} {index : Nat}
    {methods : List Method} {parts : List ClassDef × List FunctionDef}
    (h : partsFrom endpoint entries index methods = .ok parts) :
    List.Forall₂
      (fun x c => itemClass (classFor endpoint entries x.methodIndex) x.method x.item = .ok c)
      (Schema.entriesFrom index methods) parts.1 := by
  induction methods generalizing index parts with
  | nil =>
    cases h
    exact .nil
  | cons m rest ih =>
    obtain ⟨own, others, hown, hothers, rfl⟩ := partsFrom_cons_eq_ok h
    refine List.rel_append ?_ (ih hothers)
    exact List.forall₂_map_left_iff.mpr (mapM_eq_ok_iff.mp (methodParts_eq_ok_iff.mp hown).1)

theorem exists_of_mem_functions {endpoint : String} {entries : List Entry} {index : Nat}
    {methods : List Method} {parts : List ClassDef × List FunctionDef} {f : FunctionDef}
    (h : partsFrom endpoint entries index methods = .ok parts) (hf : f ∈ parts.2) :
    ∃ m ∈ methods, ∃ functions, methodFunctions m = .ok functions ∧ f ∈ functions := by
  induction methods generalizing index parts with
  | nil =>
    cases h
    cases hf
  | cons m rest ih =>
    obtain ⟨own, others, hown, hothers, rfl⟩ := partsFrom_cons_eq_ok h
    rcases List.mem_append.mp hf with hhere | hrest
    · exact ⟨m, List.mem_cons_self, own.2, (methodParts_eq_ok_iff.mp hown).2, hhere⟩
    · obtain ⟨m', hm', hfunctions⟩ := ih hothers hrest
      exact ⟨m', List.mem_cons_of_mem m hm', hfunctions⟩

theorem declares_resolveEndpoint {e : Endpoint} (hwf : e.WellFormed) {name : String}
    (h : e.Declares name) : (Schema.resolveEndpoint e).Declares name := by
  obtain ⟨m, hm, i, hi, hname⟩ := h
  obtain ⟨m', hm', items, hitems, rfl⟩ :=
    exists_of_mem_forall₂_left (Schema.resolves_resolveEndpoint hwf) hm
  obtain ⟨i', hi', hresolves⟩ := exists_of_mem_forall₂_left hitems hi
  exact ⟨_, hm', i', hi', hresolves.name_eq.trans hname⟩

theorem endpoint_of_ofEndpoint {unit : String} {e : Endpoint} {module : Module}
    (h : ofEndpoint unit e = .ok module) : module.endpoint = e.name := by
  obtain ⟨parts, -, h⟩ := bind_eq_ok_iff.mp h
  cases h
  rfl

/-- Every well-formed endpoint becomes a module. -/
theorem exists_ofEndpoint {unit : String} {e : Endpoint} (hwf : e.WellFormed) (hbuilt : e.Built) :
    ∃ module, ofEndpoint unit (Schema.resolveEndpoint e) = .ok module := by
  have hresolves := Schema.resolves_resolveEndpoint hwf
  have hclasses : ∀ m' ∈ (Schema.resolveEndpoint e).methods, ∀ index, ∀ i' ∈ m'.items,
      ∃ c, itemClass (classFor e.name (Schema.resolveEndpoint e).entries index) m' i' = .ok c := by
    intro m' hm' index i' hi'
    obtain ⟨m, hm, items, hitems, rfl⟩ := exists_of_mem_forall₂ hresolves hm'
    obtain ⟨i, hi, hitem⟩ := exists_of_mem_forall₂ hitems hi'
    refine exists_itemClass (hbuilt m hm i hi) hitem fun r hr => ?_
    exact exists_classFor (e := Schema.resolveEndpoint e)
      (declares_resolveEndpoint hwf ((hwf.methods m hm).references i hi r hr))
  have hfunctions : ∀ m' ∈ (Schema.resolveEndpoint e).methods,
      ∃ functions, methodFunctions m' = .ok functions := by
    intro m' hm'
    obtain ⟨m, hm, hmethod⟩ := exists_of_mem_forall₂ hresolves hm'
    exact exists_methodFunctions (hwf.methods m hm) hmethod
  obtain ⟨parts, hparts⟩ := exists_partsFrom hclasses hfunctions 0
  exact ⟨_, bind_eq_ok_iff.mpr ⟨parts, hparts, rfl⟩⟩

end Client
end EndpointDsl
