import EndpointDsl.Proofs.Client.Generation

/-!
The laws that every generated class keeps.

They are what reading and writing instances relies on: members with different names and different
wire names, and flags that agree with the types of the members they speak of.
-/

namespace EndpointDsl
namespace Client

open Schema (Endpoint Entry Item Method Struct Enum Field Variant TypeDesc Scalar)

/-- A zero value is one of the values of a type. -/
def Zero.Fits (z : Zero) : FieldType → Prop
  | .scalar kind => Zero.ofScalar? kind = some z
  | .list _ => z = .list
  | _ => False

/-- A type whose values include null. -/
def FieldType.Nullable : FieldType → Prop
  | .optional _ => True
  | .unit => True
  | _ => False

/-- What the fallback of a field says about the field. -/
structure FieldDef.Lawful (f : FieldDef) : Prop where
  absent : f.fallback = .absent → f.fieldType.Nullable
  zero : ∀ z, f.fallback = .zero z → z.Fits f.fieldType
  declared : ∀ className attr, f.fallback ≠ .builder className attr

structure ClassDef.Lawful (c : ClassDef) : Prop where
  attrs : (c.fields.map (·.attr)).Nodup
  wires : (c.fields.map (·.wire)).Nodup
  fields : ∀ f ∈ c.fields, f.Lawful
  /-- Only fields that fall back to null are left out while null. -/
  omits : ∀ f ∈ c.fields, f.attr ∈ c.omitted → f.fallback = .absent
  /-- No variant is needed, and exactly those without payload hold nothing but null. -/
  variants : c.base = .enum → ∀ f ∈ c.fields, f.fallback = .absent ∧
    (f.attr ∈ c.units ↔ f.fieldType = .unit)
  plain : c.base = .enum → c.builder = false

/-! ## Fields -/

theorem fieldFallback_eq_ok {f : Field} {fallback : Fallback} (h : fieldFallback f = .ok fallback) :
    (fallback = .absent ↔ f.isOptional = true) ∧
      (∀ z, fallback = .zero z → Zero.ofType f.type = .ok z) ∧
      ∀ className attr, fallback ≠ .builder className attr := by
  unfold fieldFallback at h
  by_cases hoptional : f.isOptional = true
  · rw [if_pos hoptional] at h
    cases h
    exact ⟨by simp [hoptional], nofun, nofun⟩
  · rw [if_neg hoptional] at h
    by_cases hdefault : f.hasDefault = true
    · rw [if_pos hdefault] at h
      obtain ⟨z, hz, rfl⟩ := map_eq_ok_iff.mp h
      refine ⟨by simp [hoptional], fun z' hz' => ?_, nofun⟩
      cases hz'
      exact hz
    · rw [if_neg hdefault] at h
      cases h
      exact ⟨by simp [hoptional], nofun, nofun⟩

theorem exists_optional_ofType {className : String → Gen String} {type : TypeDesc} {t : FieldType}
    (hoptional : type.isOptional = true) (h : FieldType.ofType className type = .ok t) :
    ∃ inner, t = .optional inner := by
  cases type with
  | optional inner =>
    obtain ⟨t', -, rfl⟩ := map_eq_ok_iff.mp h
    exact ⟨t', rfl⟩
  | primitive name => cases hoptional
  | collection item => cases hoptional
  | reference name => cases hoptional

theorem zero_fits_ofType {className : String → Gen String} {type : TypeDesc} {t : FieldType}
    {z : Zero}
    (ht : FieldType.ofType className type = .ok t) (hz : Zero.ofType type = .ok z) : z.Fits t := by
  cases type with
  | primitive name =>
    rw [FieldType.ofType] at ht
    rw [Zero.ofType] at hz
    cases hkind : Scalar.ofName? name with
    | none => rw [hkind] at ht; cases ht
    | some kind =>
      rw [hkind] at ht
      rw [hkind, Option.bind_some] at hz
      cases ht
      show Zero.ofScalar? kind = some z
      cases hzero : Zero.ofScalar? kind with
      | none => rw [hzero] at hz; cases hz
      | some z' => rw [hzero] at hz; cases hz; rfl
  | collection item =>
    obtain ⟨t', -, rfl⟩ := map_eq_ok_iff.mp ht
    cases hz
    rfl
  | reference name => cases hz
  | optional inner => cases hz

theorem lawful_fieldDef {className : String → Gen String} {struct : String} {f : Field}
    {d : FieldDef}
    (h : fieldDef className struct f = .ok d) : d.Lawful := by
  obtain ⟨wire, t, fallback, -, ht, hfallback, rfl⟩ := fieldDef_eq_ok_iff.mp h
  obtain ⟨habsent, hzero, hdeclared⟩ := fieldFallback_eq_ok hfallback
  refine ⟨fun h => ?_, fun z hz => ?_, hdeclared⟩
  · obtain ⟨inner, hinner⟩ := exists_optional_ofType (habsent.mp h) ht
    show t.Nullable
    rw [hinner]
    trivial
  · exact zero_fits_ofType ht (hzero z hz)

theorem nullable_variantType {className : String → Gen String} {v : Variant} {t : FieldType}
    (h : variantType className v = .ok t) :
    t.Nullable ∧ (t = .unit ↔ v.payload = none) := by
  unfold variantType at h
  cases hpayload : v.payload with
  | none =>
    rw [hpayload] at h
    cases h
    exact ⟨trivial, by simp⟩
  | some type =>
    rw [hpayload] at h
    have hoptional : ∃ inner, t = .optional inner := by
      replace h : FieldType.ofOptionalType className type = .ok t := h
      unfold FieldType.ofOptionalType at h
      by_cases hopt : type.isOptional = true
      · rw [if_pos hopt] at h
        exact exists_optional_ofType hopt h
      · rw [if_neg hopt] at h
        obtain ⟨t', -, rfl⟩ := map_eq_ok_iff.mp h
        exact ⟨t', rfl⟩
    obtain ⟨inner, rfl⟩ := hoptional
    exact ⟨trivial, by simp⟩

/-! ## Classes -/

/-- Members under one attribute name are one member, once the attribute names differ. -/
theorem mem_map_filter_iff {α : Type} {key : α → String} {p : α → Bool} {xs : List α} {x : α}
    (hkeys : (xs.map key).Nodup) (hx : x ∈ xs) : key x ∈ (xs.filter p).map key ↔ p x = true := by
  constructor
  · intro h
    obtain ⟨y, hy, heq⟩ := List.mem_map.mp h
    obtain ⟨hmem, hp⟩ := List.mem_filter.mp hy
    rwa [← List.inj_on_of_nodup_map hkeys hmem hx heq]
  · intro h
    exact List.mem_map.mpr ⟨x, List.mem_filter.mpr ⟨hx, h⟩, rfl⟩

theorem structBase_ne_enum {s : Struct} {base : Base} (h : structBase s = .ok base) :
    base ≠ .enum := by
  simp only [structBase] at h
  split at h
  · cases h; decide
  split at h
  · cases h; decide
  split at h
  · cases h; decide
  split at h
  · cases h; decide
  · cases h

/-- The fields of a class are made from those of its structure one by one. -/
theorem fieldDefs_structClass {className : String → Gen String} {m : Method} {s : Struct}
    {c : ClassDef}
    (hwf : s.WellFormed) (h : structClass className m (Schema.resolveStruct s) = .ok c) :
    List.Forall₂ (fun f d => fieldDef className s.name (s.resolved f) = .ok d) s.fields c.fields := by
  rw [Schema.resolveStruct_eq hwf] at h
  obtain ⟨base, fields, -, hfields, rfl⟩ := structClass_eq_ok_iff.mp h
  exact List.forall₂_map_left_iff.mp (mapM_eq_ok_iff.mp hfields)

/-- The fields of a class have the wire names of its structure. -/
theorem wires_structClass {className : String → Gen String} {m : Method} {s : Struct}
    {c : ClassDef}
    (hwf : s.WellFormed) (h : structClass className m (Schema.resolveStruct s) = .ok c) :
    c.fields.map (·.wire) = s.wireNames := by
  refine (map_eq_of_forall₂ (fieldDefs_structClass hwf h) fun f d hd => ?_).symm
  obtain ⟨wire, t, fallback, hwire, -, -, rfl⟩ := fieldDef_eq_ok_iff.mp hd
  exact Option.some.inj hwire

theorem attrs_structClass {className : String → Gen String} {m : Method} {s : Struct}
    {c : ClassDef}
    (hwf : s.WellFormed) (h : structClass className m (Schema.resolveStruct s) = .ok c) :
    c.fields.map (·.attr) = s.attributeNames := by
  refine (map_eq_of_forall₂ (fieldDefs_structClass hwf h) fun f d hd => ?_).symm
  obtain ⟨wire, t, fallback, -, -, -, rfl⟩ := fieldDef_eq_ok_iff.mp hd
  rfl

theorem lawful_structClass {className : String → Gen String} {m : Method} {s : Struct}
    {c : ClassDef}
    (hwf : s.WellFormed) (h : structClass className m (Schema.resolveStruct s) = .ok c) :
    c.Lawful := by
  have hwires := wires_structClass hwf h
  have hattrs := attrs_structClass hwf h
  have hall := fieldDefs_structClass hwf h
  rw [Schema.resolveStruct_eq hwf] at h
  obtain ⟨base, fields, hbase, -, rfl⟩ := structClass_eq_ok_iff.mp h
  have hnot := structBase_ne_enum hbase
  refine ⟨hattrs.symm ▸ hwf.attrs, hwires.symm ▸ hwf.wires, fun d hd => ?_,
    fun d hd homitted => ?_, fun henum => absurd henum hnot, fun henum => absurd henum hnot⟩
  · obtain ⟨f, -, hf⟩ := exists_of_mem_forall₂ hall hd
    exact lawful_fieldDef hf
  · obtain ⟨f, hf, hfd⟩ := exists_of_mem_forall₂ hall hd
    obtain ⟨wire, t, fallback, -, -, hfallback, rfl⟩ := fieldDef_eq_ok_iff.mp hfd
    refine (fieldFallback_eq_ok hfallback).1.mpr ?_
    have hnames : ((s.fields.map s.resolved).map fun f => Name.attributeName f.name).Nodup := by
      rw [List.map_map]
      exact hwf.attrs
    have homit := (mem_map_filter_iff hnames (List.mem_map.mpr ⟨f, hf, rfl⟩)).mp homitted
    exact (Bool.and_eq_true_iff.mp homit).1

/-- The fields of the class of an enum are made from its variants one by one. -/
theorem variantDefs_enumClass {className : String → Gen String} {m : Method} {e : Enum}
    {c : ClassDef}
    (hwf : e.WellFormed) (h : enumClass className m (Schema.resolveEnum e) = .ok c) :
    List.Forall₂ (fun v d => variantDef className e.name
      (Schema.resolveVariant (Schema.typeStyle e.attributes) v) = .ok d) e.variants c.fields := by
  rw [Schema.resolveEnum_eq hwf] at h
  obtain ⟨fields, -, -, hfields, rfl⟩ := enumClass_eq_ok_iff.mp h
  exact List.forall₂_map_left_iff.mp (mapM_eq_ok_iff.mp hfields)

theorem wires_enumClass {className : String → Gen String} {m : Method} {e : Enum} {c : ClassDef}
    (hwf : e.WellFormed) (h : enumClass className m (Schema.resolveEnum e) = .ok c) :
    c.fields.map (·.wire) = e.wireNames := by
  refine (map_eq_of_forall₂ (variantDefs_enumClass hwf h) fun v d hd => ?_).symm
  obtain ⟨wire, t, hwire, -, rfl⟩ := variantDef_eq_ok_iff.mp hd
  exact Option.some.inj hwire

theorem attrs_enumClass {className : String → Gen String} {m : Method} {e : Enum} {c : ClassDef}
    (hwf : e.WellFormed) (h : enumClass className m (Schema.resolveEnum e) = .ok c) :
    c.fields.map (·.attr) = e.attributeNames := by
  refine (map_eq_of_forall₂ (variantDefs_enumClass hwf h) fun v d hd => ?_).symm
  obtain ⟨wire, t, -, -, rfl⟩ := variantDef_eq_ok_iff.mp hd
  rfl

theorem lawful_enumClass {className : String → Gen String} {m : Method} {e : Enum} {c : ClassDef}
    (hwf : e.WellFormed) (h : enumClass className m (Schema.resolveEnum e) = .ok c) : c.Lawful := by
  have hwires := wires_enumClass hwf h
  have hattrs := attrs_enumClass hwf h
  have hall := variantDefs_enumClass hwf h
  rw [Schema.resolveEnum_eq hwf] at h
  obtain ⟨fields, -, -, -, rfl⟩ := enumClass_eq_ok_iff.mp h
  refine ⟨hattrs.symm ▸ hwf.attrs, hwires.symm ▸ hwf.wires, fun d hd => ?_,
    fun d hd h => (List.not_mem_nil h).elim, fun _ d hd => ?_, fun _ => rfl⟩
  · obtain ⟨v, -, hv⟩ := exists_of_mem_forall₂ hall hd
    obtain ⟨wire, t, -, ht, rfl⟩ := variantDef_eq_ok_iff.mp hv
    exact ⟨fun _ => (nullable_variantType ht).1, nofun, nofun⟩
  · obtain ⟨v, hv, hvd⟩ := exists_of_mem_forall₂ hall hd
    obtain ⟨wire, t, -, ht, rfl⟩ := variantDef_eq_ok_iff.mp hvd
    refine ⟨rfl, ?_⟩
    have hnames : ((e.variants.map (Schema.resolveVariant (Schema.typeStyle e.attributes))).map
        fun v => Name.attributeName v.name).Nodup := by
      rw [List.map_map]
      exact hwf.attrs
    refine (mem_map_filter_iff hnames (List.mem_map.mpr ⟨v, hv, rfl⟩)).trans ?_
    rw [Option.isNone_iff_eq_none]
    exact (nullable_variantType ht).2.symm

theorem lawful_itemClass {className : String → Gen String} {m : Method} {i i' : Item} {c : ClassDef}
    (hi : i.Resolves i') (h : itemClass className m i' = .ok c) : c.Lawful := by
  obtain ⟨capability, -, hwf, rfl⟩ := hi
  cases i with
  | struct s => exact lawful_structClass hwf h
  | enum e => exact lawful_enumClass hwf h

theorem exists_of_mem_entriesFrom {index : Nat} {methods : List Method} {x : Entry}
    (h : x ∈ Schema.entriesFrom index methods) : ∃ m ∈ methods, x.item ∈ m.items := by
  obtain ⟨m, hm, hitem⟩ := Schema.mem_entriesFrom.mp ⟨x, h, rfl⟩
  exact ⟨m, hm, hitem⟩

theorem lawful_of_ofEndpoint {unit : String} {e : Endpoint} {module : Module} {c : ClassDef}
    (hwf : e.WellFormed) (h : ofEndpoint unit (Schema.resolveEndpoint e) = .ok module)
    (hc : c ∈ module.classes) : c.Lawful := by
  obtain ⟨parts, hparts, h⟩ := bind_eq_ok_iff.mp h
  cases h
  obtain ⟨x, hx, hclass⟩ := exists_of_mem_forall₂ (classes_partsFrom hparts) hc
  obtain ⟨m', hm', hitem⟩ := exists_of_mem_entriesFrom hx
  obtain ⟨m, -, items, hitems, rfl⟩ :=
    exists_of_mem_forall₂ (Schema.resolves_resolveEndpoint hwf) hm'
  obtain ⟨i, -, hresolves⟩ := exists_of_mem_forall₂ hitems hitem
  exact lawful_itemClass hresolves hclass

end Client
end EndpointDsl
