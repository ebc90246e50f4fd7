import EndpointDsl.Proofs.Wire.Obtained
import EndpointDsl.Proofs.Wire.OwnEntry

/-!
Instances come back from the documents they are written as.

Writer and reader enter classes in the same way, so whatever nests too deep for the one does for
the other.  A value of a type comes back from its document because its parts do: scalars from their
texts, the fields of a structure from their own entries, a field that was left out from its
fallback, and the payload of a variant from the only entry there is.
-/

namespace EndpointDsl
namespace Wire

open Client (ClassDef FieldDef FieldType Module)

/-- A class whose documents tell its fields apart. -/
structure Legible (c : ClassDef) : Prop where
  lawful : c.Lawful
  apart : NamesApart c

/-- Whatever document a value of a type is written as, the value is read back from it. -/
def RoundTrips (m : Module) (t : FieldType) (v : Value) : Prop :=
  ∀ ⦃n : Nesting⦄ ⦃j : Json⦄, encodeIn (.ofModule m) n (Shape.ofType m t) v = .ok j →
    checkValue (.program m) n t (.ofJson j) = .ok v

variable {m : Module} {n : Nesting} {t : FieldType} {v : Value} {c : ClassDef} {j : Json}

/-! ## Types that are no classes -/

theorem roundTrips_scalar {kind : Schema.Scalar} (h : kind.Holds v) :
    RoundTrips m (.scalar kind) v := by
  intro n j hj
  exact checkValue_scalar_eq_ok_iff.mpr (check_of_encodeIn h hj)

theorem roundTrips_unit : RoundTrips m .unit .null := by
  intro n j hj
  cases hj
  exact checkValue_unit

theorem misfit?_optional_null (m : Module) (t : FieldType) :
    (Shape.ofType m (.optional t)).misfit? .null = none := by
  rw [Shape.ofType]
  cases Shape.ofType m t <;> rfl

theorem roundTrips_absent : RoundTrips m (.optional t) .null := by
  intro n j hj
  rw [encodeIn, misfit?_optional_null] at hj
  cases hj
  exact checkValue_null

/-- Once a value is not null, its place may as well not be optional. -/
theorem encodeIn_optional {w : Writing} (hv : v ≠ .null) :
    encodeIn w n (Shape.ofType m (.optional t)) v = encodeIn w n (Shape.ofType m t) v := by
  rw [Shape.ofType]
  cases Shape.ofType m t with
  | enum declared mayBeNull =>
    cases v with
    | null => exact absurd rfl hv
    | choice name attr payload => rw [encodeIn, encodeIn]; rfl
    | _ => cases mayBeNull <;> rfl
  | _ => rfl

theorem roundTrips_present (hv : v ≠ .null) (h : RoundTrips m t v) :
    RoundTrips m (.optional t) v := by
  intro n j hj
  rw [encodeIn_optional hv] at hj
  have hread := h hj
  have hne : Value.ofJson j ≠ .null := by
    intro hnull
    rw [hnull] at hread
    exact hv (nullable_of_checkValue hread).2
  rw [checkValue_optional hne]
  exact hread

theorem encodeItems_eq_ok_iff {w : Writing} {shape : Shape} {items : List Value} {js : List Json} :
    encodeItems w n shape items = .ok js ↔
      List.Forall₂ (fun v j => encodeIn w n shape v = .ok j) items js := by
  induction items generalizing js with
  | nil =>
    rw [encodeItems, List.forall₂_nil_left_iff]
    exact ⟨fun h => (Except.ok.inj h).symm, fun h => by rw [h]⟩
  | cons v rest ih =>
    rw [encodeItems, bind_eq_ok_iff, List.forall₂_cons_left_iff]
    constructor
    · intro h
      obtain ⟨j, hj, h⟩ := h
      obtain ⟨js', hjs', h⟩ := bind_eq_ok_iff.mp h
      exact ⟨j, js', hj, ih.mp hjs', (Except.ok.inj h).symm⟩
    · intro h
      obtain ⟨j, js', hj, hjs', rfl⟩ := h
      exact ⟨j, hj, bind_eq_ok_iff.mpr ⟨js', ih.mpr hjs', rfl⟩⟩

theorem ofItems_eq_map (js : List Json) : Value.ofItems js = js.map .ofJson := by
  induction js with
  | nil => rfl
  | cons j rest ih => rw [Value.ofItems, ih, List.map_cons]

theorem ofFields_eq_map (fields : List (String × Json)) :
    Value.ofFields fields = fields.map fun e => (e.1, .ofJson e.2) := by
  induction fields with
  | nil => rfl
  | cons e rest ih => rw [Value.ofFields, ih, List.map_cons]

theorem roundTrips_list {items : List Value} (h : ∀ v ∈ items, RoundTrips m t v) :
    RoundTrips m (.list t) (.list items) := by
  intro n j hj
  rw [Shape.ofType, encodeIn] at hj
  obtain ⟨js, hjs, rfl⟩ := map_eq_ok_iff.mp hj
  have hread : List.Forall₂ (fun j v => checkValue (.program m) n t (.ofJson j) = .ok v) js items :=
    (forall₂_imp_of_mem (encodeItems_eq_ok_iff.mp hjs) fun v _ hv _ hj => h v hv hj).flip
  rw [Value.ofJson, checkValue_list, map_eq_ok_iff]
  refine ⟨items, checkItems_eq_ok_iff.mpr ?_, rfl⟩
  rw [ofItems_eq_map, List.forall₂_map_left_iff]
  exact hread

/-! ## Structures -/

theorem within_program (m : Module) (c : ClassDef) : (Setting.program m).within c = .program m := by
  unfold Setting.within
  split <;> rfl

/-- A place in which the instances of a structure are written as their class has it. -/
inductive Shape.Struct (c : ClassDef) : Shape → Prop
  | free : Struct c .free
  | declared : Struct c (.struct c)

theorem encodeIn_model {w : Writing} {shape : Shape} {name : String} {attrs : List (String × Value)}
    (hc : w.module.class? name = some c) (hshape : shape.Struct c)
    (h : encodeIn w n shape (.model name attrs) = .ok j) :
    ∃ inner entries, shape.inside? w.readers n c = some inner ∧
      encodeAttrs w inner c attrs = .ok entries ∧
      j = .object (entries.filter fun e => !(ClassDef.omittedKeys c attrs).contains e.1) := by
  cases hshape
  all_goals
    rw [encodeIn, hc] at h
    simp only [Shape.misfit?] at h
    split at h
    · cases h
    · next inner hinner =>
      obtain ⟨entries, hentries, h⟩ := bind_eq_ok_iff.mp h
      exact ⟨inner, entries, hinner, hentries, (Except.ok.inj h).symm⟩

theorem field?_of_mem (hattrs : (c.fields.map (·.attr)).Nodup) {f : FieldDef} (hf : f ∈ c.fields) :
    c.field? f.attr = some f := by
  cases hfound : c.field? f.attr with
  | none =>
    have hnone := List.find?_eq_none.mp hfound f hf
    exact absurd (beq_self_eq_true f.attr) hnone
  | some g =>
    have hname := List.find?_some hfound
    rw [List.inj_on_of_nodup_map hattrs (List.mem_of_find?_eq_some hfound) hf (beq_iff_eq.mp hname)]

/-- The document that a field of an instance is written as. -/
def fieldDocument (w : Writing) (n : Nesting) (value : FieldDef → Value) (f : FieldDef) : Json :=
  match encodeIn w n (Shape.ofType w.module f.fieldType) (value f) with
  | .ok j => j
  | .error _ => .null

theorem encodeAttrs_eq_ok {w : Writing} {value : FieldDef → Value}
    (hattrs : (c.fields.map (·.attr)).Nodup) {fields : List FieldDef}
    (hfields : ∀ f ∈ fields, f ∈ c.fields)
    {entries : List (String × Json)}
    (h : encodeAttrs w n c (fields.map fun f => (f.attr, value f)) = .ok entries) :
    entries = fields.map (fun f => (f.wire, fieldDocument w n value f)) ∧
      ∀ f ∈ fields, encodeIn w n (Shape.ofType w.module f.fieldType) (value f) =
        .ok (fieldDocument w n value f) := by
  induction fields generalizing entries with
  | nil =>
    cases h
    exact ⟨rfl, fun f hf => nomatch hf⟩
  | cons f rest ih =>
    rw [List.map_cons, encodeAttrs, field?_of_mem hattrs (hfields f List.mem_cons_self)] at h
    obtain ⟨j, hj, h⟩ := bind_eq_ok_iff.mp h
    obtain ⟨js, hjs, h⟩ := bind_eq_ok_iff.mp h
    have hdocument : fieldDocument w n value f = j := by rw [fieldDocument, hj]
    obtain ⟨hentries, hall⟩ := ih (fun g hg => hfields g (List.mem_cons_of_mem f hg)) hjs
    refine ⟨?_, fun g hg => ?_⟩
    · rw [List.map_cons, hdocument, ← hentries]
      exact (Except.ok.inj h).symm
    · rcases List.mem_cons.mp hg with rfl | hg
      · rw [hdocument]
        exact hj
      · exact hall g hg

theorem encodeAttrs_of_encodeIn {w : Writing} {value : FieldDef → Value}
    {document : FieldDef → Json} (hattrs : (c.fields.map (·.attr)).Nodup)
    {fields : List FieldDef} (hfields : ∀ f ∈ fields, f ∈ c.fields)
    (h : ∀ f ∈ fields,
      encodeIn w n (Shape.ofType w.module f.fieldType) (value f) = .ok (document f)) :
    encodeAttrs w n c (fields.map fun f => (f.attr, value f)) =
      .ok (fields.map fun f => (f.wire, document f)) := by
  induction fields with
  | nil => rfl
  | cons f rest ih =>
    obtain ⟨hf, hrest⟩ := List.forall_mem_cons.mp hfields
    obtain ⟨hdocument, hdocuments⟩ := List.forall_mem_cons.mp h
    rw [List.map_cons, encodeAttrs, field?_of_mem hattrs hf]
    refine bind_eq_ok_iff.mpr ⟨_, hdocument, bind_eq_ok_iff.mpr ⟨_, ih hrest hdocuments, rfl⟩⟩

/-- Whether a field is left out of the document of an instance. -/
def isOmitted (c : ClassDef) (value : FieldDef → Value) (f : FieldDef) : Bool :=
  match value f with
  | .null => c.omitted.contains f.attr
  | _ => false

theorem isOmitted_iff {value : FieldDef → Value} {f : FieldDef} :
    isOmitted c value f = true ↔ value f = .null ∧ f.attr ∈ c.omitted := by
  unfold isOmitted
  split
  · next h => simp [h]
  · next h =>
    constructor
    · intro hfalse
      cases hfalse
    · intro homitted
      exact absurd homitted.1 h

theorem mem_omittedKeys_iff (hlawful : c.Lawful) {value : FieldDef → Value} {f : FieldDef}
    (hf : f ∈ c.fields) :
    (ClassDef.omittedKeys c (c.fields.map fun f => (f.attr, value f))).contains f.wire =
      isOmitted c value f := by
  have hwire : ∀ g ∈ c.fields, ClassDef.wire c g.attr = g.wire := by
    intro g hg
    rw [ClassDef.wire, field?_of_mem hlawful.attrs hg]
    rfl
  rw [Bool.eq_iff_iff, List.contains_iff_mem, isOmitted_iff, ClassDef.omittedKeys,
    List.filterMap_map, List.mem_filterMap]
  constructor
  · intro h
    obtain ⟨g, hg, hkey⟩ := h
    simp only [Function.comp_apply] at hkey
    split at hkey
    · next hnull =>
      split at hkey
      · next homitted =>
        rw [hwire g hg] at hkey
        have hgf : g = f := List.inj_on_of_nodup_map hlawful.wires hg hf (Option.some.inj hkey)
        subst hgf
        exact ⟨hnull, List.contains_iff_mem.mp homitted⟩
      · cases hkey
    · cases hkey
  · intro h
    refine ⟨f, hf, ?_⟩
    simp only [Function.comp_apply, h.1]
    rw [if_pos (List.contains_iff_mem.mpr h.2), hwire f hf]

/-- The entries that are kept are those of the fields that are not left out. -/
theorem filter_omittedKeys (hlawful : c.Lawful) {value : FieldDef → Value}
    {document : FieldDef → Json} :
    ((c.fields.map fun f => (f.wire, document f)).filter fun e =>
      !(ClassDef.omittedKeys c (c.fields.map fun f => (f.attr, value f))).contains e.1) =
      (c.fields.filter fun f => !isOmitted c value f).map fun f => (f.wire, document f) := by
  rw [List.filter_map]
  refine congrArg (List.map _) (List.filter_congr fun f hf => ?_)
  rw [Function.comp_apply, mem_omittedKeys_iff hlawful hf]

/-- The entries of an instance as they are read again. -/
def writtenEntries (c : ClassDef) (value : FieldDef → Value) (document : FieldDef → Json) :
    List (String × Value) :=
  (c.fields.filter fun f => !isOmitted c value f).map fun f => (f.wire, .ofJson (document f))

theorem ofJson_written (hlawful : c.Lawful) {value : FieldDef → Value}
    {document : FieldDef → Json} :
    Value.ofJson (.object ((c.fields.map fun f => (f.wire, document f)).filter fun e =>
      !(ClassDef.omittedKeys c (c.fields.map fun f => (f.attr, value f))).contains e.1)) =
      .object (writtenEntries c value document) := by
  rw [filter_omittedKeys hlawful, Value.ofJson, ofFields_eq_map, List.map_map]
  rfl

theorem lookup?_written (hlawful : c.Lawful) (value : FieldDef → Value) (document : FieldDef → Json)
    {f : FieldDef} (hf : f ∈ c.fields) :
    lookup? f.wire (writtenEntries c value document) =
      if isOmitted c value f then none else some (.ofJson (document f)) := by
  by_cases homitted : isOmitted c value f = true
  · rw [if_pos homitted, lookup?_eq_none_iff]
    intro hmem
    obtain ⟨e, he, hname⟩ := List.mem_map.mp hmem
    obtain ⟨g, hg, rfl⟩ := List.mem_map.mp he
    obtain ⟨hgc, hkept⟩ := List.mem_filter.mp hg
    have hgf : g = f := List.inj_on_of_nodup_map hlawful.wires hgc hf hname
    subst hgf
    rw [homitted] at hkept
    cases hkept
  · rw [if_neg homitted]
    refine lookup?_of_mem ?_ ?_
    · rw [writtenEntries, List.map_map]
      exact hlawful.wires.sublist (List.filter_sublist.map _)
    · exact List.mem_map.mpr ⟨f, List.mem_filter.mpr ⟨hf, by simp [homitted]⟩, rfl⟩

/-- What a field of an instance gets from the entries of the instance. -/
def writtenGiven (c : ClassDef) (value : FieldDef → Value) (f : FieldDef) : Given :=
  ⟨f.attr, if isOmitted c value f then none else some (value f), fallbackValue f⟩

/-- A field that was left out falls back to the null that it held. -/
theorem writtenGiven_value (hlawful : c.Lawful) {value : FieldDef → Value} {f : FieldDef}
    (hf : f ∈ c.fields) :
    (writtenGiven c value f).value.getD (writtenGiven c value f).fallback = value f := by
  unfold writtenGiven
  by_cases homitted : isOmitted c value f = true
  · obtain ⟨hnull, hmember⟩ := isOmitted_iff.mp homitted
    show (if isOmitted c value f then none else some (value f)).getD (fallbackValue f) = value f
    rw [if_pos homitted, fallbackValue_absent (hlawful.omits f hf hmember), hnull]
    rfl
  · show (if isOmitted c value f then none else some (value f)).getD (fallbackValue f) = value f
    rw [if_neg homitted]
    rfl

theorem checkField_written (hlegible : Legible c) {value : FieldDef → Value}
    {document : FieldDef → Json}
    {s : Setting} {f : FieldDef} (hf : f ∈ c.fields)
    (h : checkValue s n f.fieldType (.ofJson (document f)) = .ok (value f)) :
    checkField s n f (writtenEntries c value document) = .ok (writtenGiven c value f) := by
  have hkeys : ∀ e ∈ writtenEntries c value document, e.1 ∈ wireNames c := by
    intro e he
    obtain ⟨g, hg, rfl⟩ := List.mem_map.mp he
    exact List.mem_map.mpr ⟨g, (List.mem_filter.mp hg).1, rfl⟩
  have hlookup := lookup?_written hlegible.lawful value document hf
  rw [checkField_eq_ownField hlegible.apart hkeys hf, writtenGiven]
  by_cases homitted : isOmitted c value f = true
  · have hfallback := hlegible.lawful.omits f hf (isOmitted_iff.mp homitted).2
    rw [if_pos homitted] at hlookup ⊢
    rw [ownField_of_none hlookup, if_neg (by rw [hfallback]; exact nofun)]
  · rw [if_neg homitted] at hlookup ⊢
    rw [ownField_of_lookup hlookup, h]
    rfl

theorem checkClass_written (hlegible : Legible c) (hbase : c.base ≠ .enum)
    {value : FieldDef → Value}
    {document : FieldDef → Json}
    (h : ∀ f ∈ c.fields,
      checkValue (.program m) n f.fieldType (.ofJson (document f)) = .ok (value f)) :
    checkClass (.program m) n c (.object (writtenEntries c value document)) =
      .ok (.model c.name (c.fields.map fun f => (f.attr, value f))) :=
  checkClass_of_checkField hbase fun f hf =>
    ⟨_, checkField_written hlegible hf (h f hf), writtenGiven_value hlegible.lawful hf⟩

/-- The instance of a structure comes back from its document. -/
theorem checkClass_of_encodeIn_model (hlegible : Legible c) (hbase : c.base ≠ .enum) {name : String}
    (hc : m.class? name = some c) {value : FieldDef → Value}
    (hfields : ∀ f ∈ c.fields, RoundTrips m f.fieldType (value f)) {shape : Shape}
    (hshape : shape.Struct c)
    (h : encodeIn (.ofModule m) n shape (.model name (c.fields.map fun f => (f.attr, value f))) =
      .ok j) :
    ∃ inner, shape.inside? (Reader.ofModule m) n c = some inner ∧
      checkClass (.program m) inner c (.ofJson j) =
        .ok (.model name (c.fields.map fun f => (f.attr, value f))) := by
  obtain ⟨inner, entries, hinner, hentries, rfl⟩ := encodeIn_model hc hshape h
  obtain ⟨rfl, hdocuments⟩ := encodeAttrs_eq_ok hlegible.lawful.attrs (fun f hf => hf) hentries
  refine ⟨inner, hinner, ?_⟩
  rw [ofJson_written hlegible.lawful, ← name_of_class? hc]
  exact checkClass_written hlegible hbase fun f hf => hfields f hf (hdocuments f hf)

/-! ## Enums -/

/-- A place in which the instances of an enum are written as their class has it. -/
inductive Shape.Enum (c : ClassDef) : Shape → Prop
  | free : Enum c .free
  | declared (mayBeNull : Bool) : Enum c (.enum c mayBeNull)

theorem encodeIn_choice {w : Writing} {shape : Shape} {name attr : String} {payload : Value}
    (hc : w.module.class? name = some c) (hshape : shape.Enum c)
    (h : encodeIn w n shape (.choice name attr payload) = .ok j) :
    ∃ inner, shape.inside? w.readers n c = some inner ∧
      encodeVariant c c attr (fun type => encodeIn w inner (Shape.ofType w.module type) payload) =
        .ok j := by
  cases hshape
  all_goals
    rw [encodeIn, hc] at h
    simp only [Shape.misfit?] at h
    split at h
    · cases h
    · next inner hinner => exact ⟨inner, hinner, h⟩

/-- A variant without payload is written as its wire name, any other as an object with one entry. -/
theorem encodeVariant_eq_ok (hlawful : c.Lawful) {f : FieldDef} (hf : f ∈ c.fields)
    {payload : FieldType → Except EncodeFault Json} (h : encodeVariant c c f.attr payload = .ok j) :
    (f.attr ∈ c.units ∧ j = .string f.wire) ∨
      (f.attr ∉ c.units ∧ ∃ document, payload f.fieldType = .ok document ∧
        j = .object [(f.wire, document)]) := by
  have hfield := field?_of_mem hlawful.attrs hf
  have hwire : ClassDef.wire c f.attr = f.wire := by
    rw [ClassDef.wire, hfield]
    rfl
  rw [encodeVariant, hwire, hfield] at h
  by_cases hunit : c.units.contains f.attr = true
  · rw [if_pos hunit] at h
    exact Or.inl ⟨List.contains_iff_mem.mp hunit, (Except.ok.inj h).symm⟩
  · rw [if_neg hunit] at h
    obtain ⟨document, hdocument, h⟩ := bind_eq_ok_iff.mp h
    rw [if_pos rfl] at h
    exact Or.inr ⟨mt List.contains_iff_mem.mpr hunit, document, hdocument, (Except.ok.inj h).symm⟩

theorem ownVariant_of_payload {s : Setting} {f : FieldDef} {w payload : Value}
    (h : checkValue (s.within c) n f.fieldType w = .ok payload)
    (hneeded : payload = .null → c.payloadRequired.contains f.attr = false) :
    ownVariant s n c f w = .ok (.choice c.name f.attr payload) := by
  rw [ownVariant, h]
  cases payload with
  | null =>
    show (if c.payloadRequired.contains f.attr then _ else _) = _
    rw [hneeded rfl]
    rfl
  | _ => rfl

/-- The bare name of a variant without payload stands for the variant. -/
theorem checkClass_wire (hlegible : Legible c) (hbase : c.base = .enum) {s : Setting} {f : FieldDef}
    (hf : f ∈ c.fields) (hunit : f.attr ∈ c.units) {payload : Value}
    (hneeded : payload = .null → c.payloadRequired.contains f.attr = false)
    (hfits : Fits m f.fieldType payload) :
    checkClass s n c (.text f.wire) = .ok (.choice c.name f.attr payload) := by
  have htype := (hlegible.lawful.variants hbase f hf).2.mp hunit
  rw [htype] at hfits
  cases hfits
  rw [checkClass_text hbase, checkFields_assemble hlegible.lawful hbase hlegible.apart hf]
  refine ownVariant_of_payload ?_ hneeded
  rw [htype]
  exact checkValue_unit

/-- The instance of an enum comes back from its document. -/
theorem checkClass_of_encodeIn_choice (hlegible : Legible c) (hbase : c.base = .enum)
    {name : String}
    (hc : m.class? name = some c) {f : FieldDef} (hf : f ∈ c.fields) {payload : Value}
    (hneeded : payload = .null → c.payloadRequired.contains f.attr = false)
    (hfits : Fits m f.fieldType payload) (hpayload : RoundTrips m f.fieldType payload)
    {shape : Shape}
    (hshape : shape.Enum c)
    (h : encodeIn (.ofModule m) n shape (.choice name f.attr payload) = .ok j) :
    ∃ inner, shape.inside? (Reader.ofModule m) n c = some inner ∧
      checkClass (.program m) inner c (.ofJson j) = .ok (.choice name f.attr payload) := by
  obtain ⟨inner, hinner, hvariant⟩ := encodeIn_choice hc hshape h
  refine ⟨inner, hinner, ?_⟩
  rw [← name_of_class? hc]
  rcases encodeVariant_eq_ok hlegible.lawful hf hvariant with
    ⟨hunit, rfl⟩ | ⟨-, document, hdocument, rfl⟩
  · exact checkClass_wire hlegible hbase hf hunit hneeded hfits
  · rw [Value.ofJson, checkClass_object]
    refine (checkFields_assemble hlegible.lawful hbase hlegible.apart hf _).trans ?_
    refine ownVariant_of_payload ?_ hneeded
    rw [within_program]
    exact hpayload hdocument

/-! ## All types -/

theorem holds_zeroValue {kind : Schema.Scalar} {z : Client.Zero}
    (h : Client.Zero.ofScalar? kind = some z) :
    kind.Holds (Zero.value z) := by
  cases kind with
  | text => cases h; exact .text ""
  | bool => cases h; exact .bool false
  | int => cases h; exact .int 0
  | natural => cases h; exact .natural (Int.le_refl 0)
  | float => cases h; exact .float _
  | bytes => cases h; exact .bytes []
  | dateTime => cases h
  | date => cases h

theorem roundTrips_fallback {f : FieldDef} (hlawful : f.Lawful) (h : FallsBack f v) :
    RoundTrips m f.fieldType v := by
  obtain ⟨rfl, hrequired⟩ := h
  cases hfallback : f.fallback with
  | required => exact absurd hfallback hrequired
  | builder className attr => exact absurd hfallback (hlawful.declared className attr)
  | absent =>
    have hnullable := hlawful.absent hfallback
    rw [fallbackValue_absent hfallback]
    cases htype : f.fieldType with
    | optional inner => exact roundTrips_absent
    | unit => exact roundTrips_unit
    | _ => rw [htype] at hnullable; exact hnullable.elim
  | zero z =>
    have hfits := hlawful.zero z hfallback
    have hvalue : fallbackValue f = Zero.value z := by rw [fallbackValue, hfallback]
    rw [hvalue]
    cases htype : f.fieldType with
    | scalar kind =>
      rw [htype] at hfits
      exact roundTrips_scalar (holds_zeroValue hfits)
    | list item =>
      rw [htype] at hfits
      obtain rfl : z = .list := hfits
      exact roundTrips_list fun v hv => absurd hv List.not_mem_nil
    | _ => rw [htype] at hfits; exact hfits.elim

theorem roundTrips_field {f : FieldDef} (hlawful : f.Lawful)
    (h : ¬ FallsBack f v → RoundTrips m f.fieldType v) : RoundTrips m f.fieldType v := by
  by_cases hback : FallsBack f v
  · exact roundTrips_fallback hlawful hback
  · exact h hback

theorem shape_of_class {name : String} (hc : m.class? name = some c) :
    Shape.ofType m (.model name) = Shape.ofClass c := by
  rw [Shape.ofType, Shape.ofClassName, hc]
  rfl

/-- Some names of classes, all legible, whose fields name none but these. -/
def LegibleAll (m : Module) (names : String → Prop) : Prop :=
  ∀ ⦃name : String⦄ ⦃c : ClassDef⦄, names name → m.class? name = some c →
    Legible c ∧ ∀ f ∈ c.fields, ∀ other, f.fieldType.className? = some other → names other

theorem roundTrips_of_fits {names : String → Prop} (hnames : LegibleAll m names) (h : Fits m t v)
    (ht : ∀ name, t.className? = some name → names name) : RoundTrips m t v := by
  induction h with
  | scalar h => exact roundTrips_scalar h
  | unit => exact roundTrips_unit
  | absent t => exact roundTrips_absent
  | present hne h ih => exact roundTrips_present hne (ih ht)
  | list h ih => exact roundTrips_list fun v hv => ih v hv ht
  | @struct name c value hc hbase h ih =>
    obtain ⟨hlegible, hfields⟩ := hnames (ht name rfl) hc
    intro n j hj
    have hshape : Shape.ofClass c = .struct c := by rw [Shape.ofClass, if_neg hbase]
    rw [shape_of_class hc, hshape] at hj
    have hparts : ∀ f ∈ c.fields, RoundTrips m f.fieldType (value f) := fun f hf =>
      roundTrips_field (hlegible.lawful.fields f hf) fun hback => ih f hf hback (hfields f hf)
    obtain ⟨inner, hinner, hread⟩ :=
      checkClass_of_encodeIn_model hlegible hbase hc hparts .declared hj
    rw [Shape.inside?, name_of_class? hc] at hinner
    exact (checkValue_model hc hinner).trans hread
  | @choice name c f payload hc hbase hf hneeded h ih =>
    obtain ⟨hlegible, hfields⟩ := hnames (ht name rfl) hc
    intro n j hj
    have hshape : Shape.ofClass c = .enum c false := by rw [Shape.ofClass, if_pos hbase]
    rw [shape_of_class hc, hshape] at hj
    obtain ⟨inner, hinner, hread⟩ := checkClass_of_encodeIn_choice hlegible hbase hc hf hneeded h
      (ih (hfields f hf)) (.declared false) hj
    rw [Shape.inside?, name_of_class? hc] at hinner
    exact (checkValue_model hc hinner).trans hread

end Wire
end EndpointDsl
