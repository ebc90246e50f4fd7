import EndpointDsl.Proofs.Client.Declarations
import EndpointDsl.Proofs.Wire.Instances
import EndpointDsl.Proofs.Wire.Uri

/-!
What the instances that a method is called with contribute to its URI.

An instance of a structure has a value for every field of the structure.  The field that covers a
path parameter holds a scalar, which has a text.  The fields of a query give the pairs of their
documents: a field that is left out of the document is null, and null gives no pair, so it does not
matter which fields are left out.
-/

namespace EndpointDsl
namespace Wire

open Client (ClassDef FieldDef FieldType Module)
open Schema (Endpoint Method Struct Field Scalar)

/-- The value of a path parameter: the attribute of the one structure with a field of its name. -/
def ParameterValue (module : Module) (m : Method) (x : Role → Value) (p : String) (v : Value) :
    Prop :=
  ∃ role, m.Covers role p ∧ (∀ other, m.Covers other p → other = role) ∧
    attribute? module (x role) (Name.attributeName p) = some v

/-- The text of a path parameter is that of its value. -/
def ParameterText (module : Module) (m : Method) (x : Role → Value) (p text : String) : Prop :=
  ∃ v, ParameterValue module m x p v ∧ v ≠ .null ∧ pathText? module v = some text

/-- An attribute of an instance is written as the document in the place that its class declares. -/
def WritesAttribute (module : Module) (v : Value) (attr : String) (j : Json) : Prop :=
  ∃ c f held, classOf? module v = some c ∧ c.field? attr = some f ∧
    attribute? module v attr = some held ∧
    encodeIn (.ofModule module) (.start (Reader.ofModule module) c.name)
      (Shape.ofType module f.fieldType) held = .ok j

/-- The query fields that fill no path parameter, with their documents, in the order of
declaration. -/
def queryParams (m : Method) (document : Field → Json) : List (String × Json) :=
  match m.findRole? (some .query) with
  | none => []
  | some s => (s.fields.filter fun f => !m.path.parameters.contains f.name).map fun f =>
      (s.wire f, document f)

/-- An argument for a structure of a method: an instance of its class that a program can obtain,
and that has an encoded form. -/
structure Argument (module : Module) (m : Method) (s : Struct) (v : Value) : Prop where
  obtained : Obtained module v
  ofClass : ∃ c, classOf? module v = some c ∧ c.name = m.className s.name
  encodes : ∃ j, encodeInstance module v = .ok j

/-! ## Fields and their values -/

/-- The field of a class that a field of a structure became. -/
structure DeclaredAs (s : Struct) (f : Field) (d : FieldDef) : Prop where
  attr : d.attr = Name.attributeName f.name
  wire : d.wire = s.wire f
  scalar : ∀ name, f.type = .primitive name →
    ∃ kind, Scalar.ofName? name = some kind ∧ d.fieldType = .scalar kind
  lawful : d.Lawful

theorem declaredAs_of_fieldDef {className : String → Client.Gen String} {struct : String}
    {s : Struct} {f f' : Field} {d : FieldDef} (hf : s.ResolvesField f f')
    (h : Client.fieldDef className struct f' = .ok d) : DeclaredAs s f d := by
  have hlawful := Client.lawful_fieldDef h
  obtain ⟨wire, type, fallback, hwire, htype, -, rfl⟩ := Client.fieldDef_eq_ok_iff.mp h
  refine ⟨by rw [hf.name], Option.some.inj (hwire.symm.trans hf.wire), fun name hname => ?_,
    hlawful⟩
  rw [hf.type, hname, FieldType.ofType] at htype
  split at htype
  · next kind hkind =>
    cases htype
    exact ⟨kind, hkind, rfl⟩
  · cases htype

/-- An instance of the class that a structure became. -/
structure InstanceOf (module : Module) (s : Struct) (c : ClassDef) (value : FieldDef → Value)
    (v : Value) : Prop where
  found : module.class? c.name = some c
  lawful : c.Lawful
  declared : List.Forall₂ (DeclaredAs s) s.fields c.fields
  made : v = .model c.name (c.fields.map fun d => (d.attr, value d))
  holds : ∀ d ∈ c.fields, ¬ FallsBack d (value d) → Fits module d.fieldType (value d)

section

variable {module : Module} {m : Method} {s : Struct} {c : ClassDef} {value : FieldDef → Value}
  {v : Value}

/-- The attributes of an instance are found under their names. -/
theorem attribute?_model (hattrs : (c.fields.map (·.attr)).Nodup) {d : FieldDef}
    (hd : d ∈ c.fields) (name : String) :
    Wire.attribute? module (.model name (c.fields.map fun d => (d.attr, value d))) d.attr =
      some (value d) := by
  refine lookup?_of_mem ?_ (List.mem_map.mpr ⟨d, hd, rfl⟩)
  rw [List.map_map]
  exact hattrs

theorem InstanceOf.classOf? (h : InstanceOf module s c value v) :
    Wire.classOf? module v = some c := by
  rw [h.made]
  exact h.found

theorem InstanceOf.attribute? (h : InstanceOf module s c value v) {d : FieldDef}
    (hd : d ∈ c.fields) : Wire.attribute? module v d.attr = some (value d) := by
  rw [h.made]
  exact attribute?_model h.lawful.attrs hd c.name

/-- A field of a scalar type holds a scalar, also if it fell back to its zero value. -/
theorem InstanceOf.holds_scalar (h : InstanceOf module s c value v) {d : FieldDef}
    (hd : d ∈ c.fields) {kind : Scalar} (hkind : d.fieldType = .scalar kind) :
    kind.Holds (value d) := by
  by_cases hback : FallsBack d (value d)
  · obtain ⟨hvalue, hrequired⟩ := hback
    have hlawful := h.lawful.fields d hd
    cases hfallback : d.fallback with
    | required => exact absurd hfallback hrequired
    | builder className attr => exact absurd hfallback (hlawful.declared className attr)
    | absent =>
      have hnullable := hlawful.absent hfallback
      rw [hkind] at hnullable
      exact hnullable.elim
    | zero z =>
      have hfits := hlawful.zero z hfallback
      rw [hkind] at hfits
      rw [hvalue, fallbackValue, hfallback]
      exact holds_zeroValue hfits
  · have hfits := h.holds d hd hback
    rw [hkind] at hfits
    cases hfits with
    | scalar hholds => exact hholds

theorem ne_null_of_holds {kind : Scalar} {held : Value} (h : kind.Holds held) : held ≠ .null := by
  cases h <;> exact nofun

/-- A scalar has a text, unless it is a whole number that is too long. -/
theorem exists_pathText? {kind : Scalar} {held : Value} (h : kind.Holds held)
    (hwritable : held.isWritable = true) : ∃ text, pathText? module held = some text := by
  rw [pathText?, if_pos hwritable]
  cases h <;> exact ⟨_, rfl⟩

/-- The field of a structure that covers a parameter gives it a scalar. -/
theorem exists_scalar {x : Role → Value} {role : Role} {f : Field} {scalar : String}
    (h : InstanceOf module s c value (x role)) (hf : f ∈ s.fields)
    (htype : f.type = .primitive scalar) (hcovers : m.Covers role f.name)
    (honly : ∀ other, m.Covers other f.name → other = role) :
    ∃ kind held, Scalar.Holds kind held ∧ ParameterValue module m x f.name held := by
  obtain ⟨d, hd, hdeclared⟩ := exists_of_mem_forall₂_left h.declared hf
  obtain ⟨kind, -, hkind⟩ := hdeclared.scalar scalar htype
  refine ⟨kind, value d, h.holds_scalar hd hkind, role, hcovers, honly, ?_⟩
  rw [← hdeclared.attr]
  exact h.attribute? hd

/-! ## Queries -/

theorem flatMap_filter_of_nil {α β : Type} {p : α → Bool} {g : α → List β} {xs : List α}
    (h : ∀ x ∈ xs, p x = false → g x = []) : (xs.filter p).flatMap g = xs.flatMap g := by
  induction xs with
  | nil => rfl
  | cons x rest ih =>
    obtain ⟨hx, hrest⟩ := List.forall_mem_cons.mp h
    rw [List.flatMap_cons, ← ih hrest]
    cases hp : p x with
    | true => rw [List.filter_cons_of_pos hp, List.flatMap_cons]
    | false => rw [List.filter_cons_of_neg (by simp [hp]), hx hp, List.nil_append]

/-- An attribute that is null is written as null. -/
theorem eq_null_of_encodeIn {w : Writing} {n : Nesting} {shape : Shape} {j : Json}
    (h : encodeIn w n shape .null = .ok j) : j = .null := by
  rw [encodeIn] at h
  split at h
  · cases h
  · exact (Except.ok.inj h).symm

/-- The document of an instance, and the documents of its attributes in it. -/
theorem InstanceOf.entries (h : InstanceOf module s c value v) {j : Json}
    (hj : encodeInstance module v = .ok j) :
    ∃ document : FieldDef → Json,
      (∀ d ∈ c.fields, WritesAttribute module v d.attr (document d)) ∧
      j = .object ((c.fields.filter fun d => !isOmitted c value d).map fun d =>
        (d.wire, document d)) ∧
      ∀ d ∈ c.fields, isOmitted c value d = true → document d = .null := by
  have hencode := encode_of_encodeInstance hj
  rw [h.made] at hencode
  obtain ⟨inner, entries, hinner, hentries, rfl⟩ := encodeIn_model h.found .free hencode
  obtain ⟨rfl, hdocuments⟩ := encodeAttrs_eq_ok h.lawful.attrs (fun d hd => hd) hentries
  have hstart := inside?_free hinner
  subst hstart
  refine ⟨fieldDocument (.ofModule module) (.start (Reader.ofModule module) c.name) value,
    fun d hd => ?_, ?_, fun d hd homitted => ?_⟩
  · exact ⟨c, d, value d, h.classOf?, field?_of_mem h.lawful.attrs hd, h.attribute? hd,
      hdocuments d hd⟩
  · rw [filter_omittedKeys h.lawful]
    rfl
  · have hnull := hdocuments d hd
    rw [(isOmitted_iff.mp homitted).1] at hnull
    exact eq_null_of_encodeIn hnull

/-- What is left out of the document gives nothing to a query. -/
theorem flatMap_written {α : Type} {document : FieldDef → Json} (keep : String → Bool)
    {g : String → Json → List α} (hnull : ∀ key, g key .null = [])
    (homitted : ∀ d ∈ c.fields, isOmitted c value d = true → document d = .null) :
    ((((c.fields.filter fun d => !isOmitted c value d).map fun d => (d.wire, document d)).filter
      fun p => keep p.1).flatMap fun p => g p.1 p.2) =
      (c.fields.filter fun d => keep d.wire).flatMap fun d => g d.wire (document d) := by
  calc
    _ = ((c.fields.filter fun d => keep d.wire).filter fun d => !isOmitted c value d).flatMap
          fun d => g d.wire (document d) := by
      rw [List.filter_map, List.flatMap_map, List.filter_filter, List.filter_filter]
      simp only [Function.comp_def, Bool.and_comm]
    _ = _ := by
      refine flatMap_filter_of_nil fun d hd hnot => ?_
      rw [homitted d (List.mem_filter.mp hd).1 (by simpa using hnot)]
      exact hnull d.wire

theorem contains_pathKeys (h : InstanceOf module s c value v) {f : Field} {d : FieldDef}
    (hf : f ∈ s.fields) (hdeclared : DeclaredAs s f d) :
    (Client.pathKeys m s).contains d.wire = m.path.parameters.contains f.name := by
  have hwires : (s.fields.map s.wire).Nodup := by
    rw [map_eq_of_forall₂ h.declared fun f d hd => hd.wire.symm]
    exact h.lawful.wires
  rw [Bool.eq_iff_iff, List.contains_iff_mem, List.contains_iff_mem, hdeclared.wire,
    Client.pathKeys, Client.mem_map_filter_iff hwires hf, List.contains_iff_mem]

/-- The document of a field of the structure is that of the field it became. -/
def documentOf (c : ClassDef) (document : FieldDef → Json) (f : Field) : Json :=
  match c.field? (Name.attributeName f.name) with
  | some d => document d
  | none => .null

theorem documentOf_declared (h : InstanceOf module s c value v) {document : FieldDef → Json}
    {f : Field} {d : FieldDef} (hd : d ∈ c.fields) (hdeclared : DeclaredAs s f d) :
    documentOf c document f = document d := by
  rw [documentOf, ← hdeclared.attr, field?_of_mem h.lawful.attrs hd]

/-- The fields of the class that are left for the query are those of the structure. -/
theorem map_declared (h : InstanceOf module s c value v)
    (hs : m.findRole? (some .query) = some s) (document : FieldDef → Json) :
    ((c.fields.filter fun d => !(Client.pathKeys m s).contains d.wire).map fun d =>
      (d.wire, document d)) = queryParams m (documentOf c document) := by
  have hall : List.Forall₂ (fun f d => f ∈ s.fields ∧ d ∈ c.fields ∧ DeclaredAs s f d)
      s.fields c.fields :=
    forall₂_imp_of_mem h.declared fun f d hf hd hdeclared => ⟨hf, hd, hdeclared⟩
  have hkept := List.rel_filter (p := fun f : Field => !m.path.parameters.contains f.name)
    (q := fun d : FieldDef => !(Client.pathKeys m s).contains d.wire)
    (fun f d hfd => by simp only [contains_pathKeys h hfd.1 hfd.2.2]) hall
  have hpairs := map_eq_of_forall₂ (f := fun f => (s.wire f, documentOf c document f))
    (g := fun d => (d.wire, document d)) hkept fun f d hfd => by
      simp only [documentOf_declared h hfd.2.1 hfd.2.2, hfd.2.2.wire]
  rw [queryParams, hs, ← hpairs]

/-- The query of an instance without the keys of path parameters. -/
theorem InstanceOf.appendQuery? (h : InstanceOf module s c value v)
    (hs : m.findRole? (some .query) = some s) {j : Json}
    (hj : encodeInstance module v = .ok j) :
    ∃ entries document, j = .object entries ∧
      (∀ f ∈ s.fields, WritesAttribute module v (Name.attributeName f.name) (document f)) ∧
      ∀ path, Wire.appendQuery? path entries (Client.pathKeys m s) =
        (queryPairs? (queryParams m document)).map (withQuery path) := by
  obtain ⟨document, hwrites, rfl, homitted⟩ := h.entries hj
  refine ⟨_, documentOf c document, rfl, fun f hf => ?_, fun path => ?_⟩
  · obtain ⟨d, hd, hdeclared⟩ := exists_of_mem_forall₂_left h.declared hf
    rw [documentOf_declared h hd hdeclared, ← hdeclared.attr]
    exact hwrites d hd
  · have hscalars := flatMap_written (fun key => !(Client.pathKeys m s).contains key)
      (g := fun key j => (queryScalars j).map (key, ·)) (fun key => rfl) homitted
    rw [appendQuery?_eq, queryPairs?, hscalars, ← map_declared h hs, queryPairs?, List.flatMap_map]

end

end Wire
end EndpointDsl
