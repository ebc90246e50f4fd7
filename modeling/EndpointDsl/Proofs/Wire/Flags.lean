import EndpointDsl.Proofs.Schema.Assignment
import EndpointDsl.Proofs.Wire.Requests

/-!
The flags of fields that may be absent, and what the classes make of such fields.

Analysis flags a field as missing by default or as left out while absent.  Generation looks at the
type and at the marks of the field again, and a class has a fallback and a list of attributes to
leave out instead of the flags.  Reading goes by the fallback and writing by the list, and both come
out as flagged.
-/

namespace EndpointDsl

/-! ## Zero values -/

namespace Schema

open Wire (Value)

/-- The zero value of a scalar type.  There is no zero among dates. -/
def Scalar.zero? : Scalar → Option Value
  | .text => some (.text "")
  | .bool => some (.bool false)
  | .int => some (.int 0)
  | .natural => some (.int 0)
  | .float => some (.float (.zero false))
  | .bytes => some (.bytes [])
  | .dateTime => none
  | .date => none

/-- The zero value of a type: what a field of the type holds for lack of a value. -/
def TypeDesc.zero? : TypeDesc → Option Value
  | .primitive name => (Scalar.ofName? name).bind Scalar.zero?
  | .collection _ => some (.list [])
  | .optional _ => some .null
  | .reference _ => none

end Schema

namespace Wire

open Client (ClassDef FieldDef FieldType Module Fallback)
open Schema (Endpoint Field Item Method Struct)

theorem zero?_of_ofScalar? {kind : Schema.Scalar} {z : Client.Zero}
    (h : Client.Zero.ofScalar? kind = some z) : kind.zero? = some (Zero.value z) := by
  cases kind <;> cases h <;> rfl

theorem zero?_of_ofType {type : Schema.TypeDesc} {z : Client.Zero}
    (h : Client.Zero.ofType type = .ok z) : type.zero? = some (Zero.value z) := by
  cases type with
  | primitive name =>
    rw [Client.Zero.ofType] at h
    split at h
    · next z' hz =>
      cases h
      obtain ⟨kind, hkind, hzero⟩ := Option.bind_eq_some_iff.mp hz
      exact Option.bind_eq_some_iff.mpr ⟨kind, hkind, zero?_of_ofScalar? hzero⟩
    · cases h
  | collection item => cases h; rfl
  | reference name => cases h
  | optional inner => cases h

/-! ## What the flags say -/

/-- An object has no entry for a field, under neither of its names. -/
def Lacks (f : Field) (entries : List (String × Value)) : Prop :=
  ∀ e ∈ entries, f.wireName ≠ some e.1 ∧ Name.attributeName f.name ≠ e.1

/-- Nothing is wrong with what an object gives to the fields of a class, one field apart. -/
def ValidApartFrom (s : Setting) (n : Nesting) (c : ClassDef) (attr : String)
    (entries : List (String × Value)) : Prop :=
  ∀ d ∈ c.fields, d.attr ≠ attr → ∃ given, checkField s n d entries = .ok given

/-- How a reading ends that is valid but for the lack of one field. -/
structure ReadsByFlag {ε : Type} (m : Module) (f : Field) (refusal : List Detail → ε)
    (read : Except ε Value) : Prop where
  succeeds : (∃ x, read = .ok x) ↔ f.defaultIfMissing = true
  value : ∀ x, read = .ok x → ∃ zero, f.type.zero? = some zero ∧
    attribute? m x (Name.attributeName f.name) = some zero
  refused : f.defaultIfMissing = false → ∃ wire, f.wireName = some wire ∧
    read = .error (refusal [⟨.missing, [.key wire]⟩])

/-- A payload gives an object: as it is, or as the text of a document. -/
inductive Gives (m : Module) : Value → Setting → List (String × Value) → Prop
  | object (entries : List (String × Value)) : Gives m (.object entries) (.program m) entries
  | text {text : String} {j : Json} {entries : List (String × Value)}
      (hread : Json.readWithin? documentLimits text = some j)
      (hobject : Value.ofJson j = .object entries) : Gives m (.text text) (.document m) entries
  | octets {octets : List UInt8} {text : String} {entries : List (String × Value)}
      (htext : Text.ofUtf8? octets = some text) (h : Gives m (.text text) (.document m) entries) :
      Gives m (.bytes octets) (.document m) entries

/-- A field is left out of the document of an instance: it may be, and it is null. -/
def isLeftOut (m : Module) (v : Value) (f : Field) : Bool :=
  match attribute? m v (Name.attributeName f.name) with
  | some .null => f.omitIfAbsent
  | _ => false

/-- A document is an object whose keys are the wire names of the fields that are not left out, in
the order of declaration. -/
def HasKeptKeys (m : Module) (s : Struct) (v : Value) (j : Json) : Prop :=
  ∃ entries, j = .object entries ∧
    entries.map (fun e => some e.1) =
      (s.fields.filter fun f => !isLeftOut m v f).map (·.wireName)

/-- Whatever else is read with it, a field that is missing is read as flagged, in a payload of its
own class and in an object inside of another payload. -/
structure DecodesByFlags (m : Module) (s : Struct) (c : ClassDef) : Prop where
  decodable : c.base.canDecode = true
  inside : ∀ f ∈ s.fields, ∀ (setting : Setting) (n : Nesting) (entries : List (String × Value)),
    Lacks f entries → ValidApartFrom setting n c (Name.attributeName f.name) entries →
      ReadsByFlag m f id (checkClass setting n c (.object entries))
  payload : ∀ f ∈ s.fields, ∀ {payload : Value} {setting : Setting}
    {entries : List (String × Value)}, Gives m payload setting entries → Lacks f entries →
      ValidApartFrom setting (.start setting.readers c.name) c (Name.attributeName f.name) entries →
        ReadsByFlag m f .invalid (decodeAs m c.name payload)

/-- The documents of instances have the keys that the flags leave, also inside of documents of
other instances. -/
structure EncodesByFlags (m : Module) (s : Struct) (c : ClassDef) : Prop where
  encodable : c.base.canEncode = true
  inside : ∀ {v : Value}, Obtained m v → classOf? m v = some c →
    ∀ {n : Nesting} {shape : Shape} {j : Json}, shape.Struct c →
      encodeIn (.ofModule m) n shape v = .ok j → HasKeptKeys m s v j
  document : ∀ {v : Value}, Obtained m v → classOf? m v = some c →
    ∀ {j : Json}, encodeInstance m v = .ok j → HasKeptKeys m s v j

/-! ## Fields of a class -/

/-- The field of a class that a field of an analysed structure became, with what it is when
missing and whether it is left out while null. -/
structure Carries (c : ClassDef) (f : Field) (d : FieldDef) : Prop where
  attr : d.attr = Name.attributeName f.name
  wire : f.wireName = some d.wire
  required : d.fallback = .required ↔ (f.isOptional || f.hasDefault) = false
  zero : d.fallback ≠ .required → f.type.zero? = some (fallbackValue d)
  omitted : d.attr ∈ c.omitted ↔ f.omitIfAbsent = true

section

variable {className : String → Client.Gen String} {struct : String} {f : Field} {d : FieldDef}

theorem fieldFallback_required_iff {fallback : Fallback}
    (h : Client.fieldFallback f = .ok fallback) :
    fallback = .required ↔ (f.isOptional || f.hasDefault) = false := by
  unfold Client.fieldFallback at h
  cases hoptional : f.isOptional with
  | true =>
    rw [hoptional, if_pos rfl] at h
    cases h
    exact iff_of_false nofun nofun
  | false =>
    rw [hoptional, if_neg Bool.false_ne_true] at h
    cases hdefault : f.hasDefault with
    | true =>
      rw [hdefault, if_pos rfl] at h
      obtain ⟨z, -, rfl⟩ := map_eq_ok_iff.mp h
      exact iff_of_false nofun nofun
    | false =>
      rw [hdefault, if_neg Bool.false_ne_true] at h
      cases h
      exact iff_of_true rfl rfl

theorem zero?_of_isOptional {type : Schema.TypeDesc} (h : type.isOptional = true) :
    type.zero? = some .null := by
  cases type <;> first | rfl | cases h

/-- What a field falls back to is the zero value of its type. -/
theorem zero?_of_fieldDef (h : Client.fieldDef className struct f = .ok d)
    (hrequired : d.fallback ≠ .required) : f.type.zero? = some (fallbackValue d) := by
  obtain ⟨wire, type, fallback, -, -, hfallback, rfl⟩ := Client.fieldDef_eq_ok_iff.mp h
  obtain ⟨habsent, hzero, hdeclared⟩ := Client.fieldFallback_eq_ok hfallback
  cases fallback with
  | required => exact absurd rfl hrequired
  | builder className attr => exact absurd rfl (hdeclared className attr)
  | absent => exact zero?_of_isOptional (habsent.mp rfl)
  | zero z => exact zero?_of_ofType (hzero z rfl)

end

/-- The fields of a class carry those of the structure, one by one. -/
theorem carries_structClass {className : String → Client.Gen String} {m : Method} {s : Struct}
    {c : ClassDef} (h : Client.structClass className m s = .ok c)
    (hattrs : (c.fields.map (·.attr)).Nodup) : List.Forall₂ (Carries c) s.fields c.fields := by
  obtain ⟨base, fields, -, hfields, rfl⟩ := Client.structClass_eq_ok_iff.mp h
  have hall := mapM_eq_ok_iff.mp hfields
  have hnames : (s.fields.map fun f => Name.attributeName f.name) = fields.map (·.attr) :=
    map_eq_of_forall₂ hall fun f d hd => by
      obtain ⟨wire, type, fallback, -, -, -, rfl⟩ := Client.fieldDef_eq_ok_iff.mp hd
      rfl
  refine forall₂_imp_of_mem hall fun f d hf _ hd => ?_
  have hzero := zero?_of_fieldDef hd
  obtain ⟨wire, type, fallback, hwire, -, hfallback, rfl⟩ := Client.fieldDef_eq_ok_iff.mp hd
  exact ⟨rfl, hwire, fieldFallback_required_iff hfallback, hzero,
    Client.mem_map_filter_iff (hnames ▸ hattrs) hf⟩

/-! ## Reading without a field -/

section

variable {m : Module} {s : Setting} {n : Nesting} {c : ClassDef} {f : Field} {d : FieldDef}
  {entries : List (String × Value)}

theorem entryFor?_of_lacks (hcarries : Carries c f d) (hlacks : Lacks f entries) :
    entryFor? d entries = none := by
  rw [entryFor?_eq_none_iff, lookup?_eq_none_iff, lookup?_eq_none_iff]
  constructor
  · intro hmem
    obtain ⟨e, he, hname⟩ := List.mem_map.mp hmem
    exact (hlacks e he).1 (by rw [hcarries.wire, hname])
  · intro hmem
    obtain ⟨e, he, hname⟩ := List.mem_map.mp hmem
    exact (hlacks e he).2 (by rw [hname, hcarries.attr])

/-- An object that is valid but for the lack of a field is an instance whose field has fallen back,
or the lack of the field is the only fault. -/
theorem checkClass_of_missing (hbase : c.base ≠ .enum) (hattrs : (c.fields.map (·.attr)).Nodup)
    (hd : d ∈ c.fields) (hmissing : entryFor? d entries = none)
    (hothers : ValidApartFrom s n c d.attr entries) :
    (d.fallback = .required →
      checkClass s n c (.object entries) = .error [⟨.missing, [.key d.wire]⟩]) ∧
    (d.fallback ≠ .required → ∃ x, checkClass s n c (.object entries) = .ok x ∧
      attribute? m x d.attr = some (fallbackValue d)) := by
  have hfield := checkField_of_none (s := s) (n := n) hmissing
  have hothers' : ∀ g ∈ c.fields, g ≠ d → ∃ given, checkField s n g entries = .ok given :=
    fun g hg hne => hothers g hg fun hname => hne (List.inj_on_of_nodup_map hattrs hg hd hname)
  have hwithin : s.within c = s := if_neg hbase
  rw [checkClass_object, hwithin]
  constructor
  · intro hrequired
    rw [if_pos hrequired] at hfield
    rw [checkFields_of_error hd (List.Nodup.of_map _ hattrs) hfield hothers']
    rfl
  · intro hrequired
    rw [if_neg hrequired] at hfield
    obtain ⟨given, hgiven⟩ := exists_checkFields fun g hg => by
      by_cases hgd : g = d
      · rw [hgd]
        exact ⟨_, hfield⟩
      · exact hothers' g hg hgd
    rw [hgiven]
    refine ⟨instanceOf c given, if_neg hbase, ?_⟩
    have hall := checkFields_eq_ok_iff.mp hgiven
    obtain ⟨g, hg, hcheck⟩ := exists_of_mem_forall₂_left hall hd
    obtain rfl : ⟨d.attr, none, fallbackValue d⟩ = g := Except.ok.inj (hfield.symm.trans hcheck)
    refine lookup?_of_mem ?_ (List.mem_map.mpr ⟨_, hg, rfl⟩)
    have hgivenAttrs : c.fields.map (·.attr) = given.map (·.attr) :=
      map_eq_of_forall₂ hall fun g given h => (attr_of_checkField h).symm
    rw [List.map_map]
    exact hgivenAttrs ▸ hattrs

/-- A reading that ends by the flag of the field ends so inside of a use of the module. -/
theorem ReadsByFlag.checked {read : Checked Value} (h : ReadsByFlag m f id read) :
    ReadsByFlag m f Refusal.invalid (Wire.checked read) where
  succeeds := by
    rw [← h.succeeds]
    exact exists_congr fun x => checked_eq_ok_iff
  value x hx := h.value x (checked_eq_ok_iff.mp hx)
  refused hflag := by
    obtain ⟨wire, hwire, hread⟩ := h.refused hflag
    exact ⟨wire, hwire, by rw [hread]; rfl⟩

theorem readsByFlag_checkClass (hbase : c.base ≠ .enum)
    (hattrs : (c.fields.map (·.attr)).Nodup) (hd : d ∈ c.fields) (hcarries : Carries c f d)
    (hflag : f.defaultIfMissing = (f.isOptional || f.hasDefault)) (hlacks : Lacks f entries)
    (hvalid : ValidApartFrom s n c (Name.attributeName f.name) entries) :
    ReadsByFlag m f id (checkClass s n c (.object entries)) := by
  rw [← hcarries.attr] at hvalid
  obtain ⟨hrefused, hread⟩ := checkClass_of_missing (m := m) hbase hattrs hd
    (entryFor?_of_lacks hcarries hlacks) hvalid
  by_cases hrequired : d.fallback = .required
  · have hunflagged : f.defaultIfMissing = false := hflag.trans (hcarries.required.mp hrequired)
    refine ⟨iff_of_false ?_ (by rw [hunflagged]; exact Bool.false_ne_true), fun x hx => ?_,
      fun _ => ⟨d.wire, hcarries.wire, hrefused hrequired⟩⟩
    · rintro ⟨x, hx⟩
      rw [hrefused hrequired] at hx
      cases hx
    · rw [hrefused hrequired] at hx
      cases hx
  · have hflagged : f.defaultIfMissing = true := by
      rw [hflag]
      exact Bool.of_not_eq_false fun h => hrequired (hcarries.required.mpr h)
    obtain ⟨x, hx, hattr⟩ := hread hrequired
    refine ⟨iff_of_true ⟨x, hx⟩ hflagged, fun y hy => ?_, fun h => ?_⟩
    · obtain rfl : x = y := Except.ok.inj (hx.symm.trans hy)
      exact ⟨_, hcarries.zero hrequired, hcarries.attr ▸ hattr⟩
    · rw [hflagged] at h
      cases h

theorem Gives.decode {payload : Value} (h : Gives m payload s entries) (c : ClassDef) :
    Wire.decode m c payload = checkAs s c (.object entries) := by
  have hdocument : ∀ {text : String} {entries : List (String × Value)},
      Gives m (.text text) (.document m) entries →
        ofDocument m c text = checkAs (.document m) c (.object entries) := by
    rintro text entries (_ | ⟨hread, hobject⟩)
    rw [ofDocument, hread, ← hobject]
  cases h with
  | object entries => rfl
  | text hread hobject => exact hdocument (.text hread hobject)
  | octets htext h =>
    rw [← hdocument h, Wire.decode, htext]

end

/-! ## Writing without the fields that are left out -/

section

variable {m : Module} {s : Struct} {c : ClassDef} {value : FieldDef → Value}

theorem isLeftOut_eq_isOmitted (hlawful : c.Lawful) {f : Field} {d : FieldDef} (hd : d ∈ c.fields)
    (hcarries : Carries c f d) :
    isLeftOut m (.model c.name (c.fields.map fun d => (d.attr, value d))) f =
      isOmitted c value d := by
  have hattr : attribute? m (.model c.name (c.fields.map fun d => (d.attr, value d)))
      (Name.attributeName f.name) = some (value d) := by
    rw [← hcarries.attr]
    exact attribute?_model hlawful.attrs hd c.name
  have homitted : c.omitted.contains d.attr = f.omitIfAbsent := by
    rw [Bool.eq_iff_iff, List.contains_iff_mem]
    exact hcarries.omitted
  rw [isLeftOut, hattr, isOmitted]
  cases value d <;> first | rfl | exact homitted.symm

theorem hasKeptKeys_of_encodeIn (hlawful : c.Lawful) (hc : m.class? c.name = some c)
    (hcarries : List.Forall₂ (Carries c) s.fields c.fields) {n : Nesting} {shape : Shape} {j : Json}
    (hshape : shape.Struct c)
    (h : encodeIn (.ofModule m) n shape
      (.model c.name (c.fields.map fun d => (d.attr, value d))) = .ok j) :
    HasKeptKeys m s (.model c.name (c.fields.map fun d => (d.attr, value d))) j := by
  obtain ⟨inner, entries, -, hentries, rfl⟩ := encodeIn_model hc hshape h
  obtain ⟨rfl, -⟩ := encodeAttrs_eq_ok hlawful.attrs (fun d hd => hd) hentries
  refine ⟨_, rfl, ?_⟩
  have hall := forall₂_imp_of_mem hcarries fun f d _ hd hfd => And.intro hd hfd
  have hkept := List.rel_filter
    (p := fun f => !isLeftOut m (.model c.name (c.fields.map fun d => (d.attr, value d))) f)
    (q := fun d => !isOmitted c value d)
    (fun f d hfd => by simp only [isLeftOut_eq_isOmitted hlawful hfd.1 hfd.2]) hall
  rw [filter_omittedKeys hlawful, List.map_map]
  exact (map_eq_of_forall₂ hkept fun f d hfd => hfd.2.wire).symm

end

/-! ## Structures of a compilation -/

section

variable {m : Module} {s : Struct} {c : ClassDef}

/-- What a class has from the structure that it was made from. -/
structure MadeOf (s : Struct) (c : ClassDef) : Prop where
  lawful : c.Lawful
  plain : c.base ≠ .enum
  carries : List.Forall₂ (Carries c) s.fields c.fields
  flags : ∀ f ∈ s.fields,
    f.defaultIfMissing = ((f.isOptional || f.hasDefault) && s.capability.decode)
  decodable : s.capability.decode = true → c.base.canDecode = true
  encodable : s.capability.encode = true → c.base.canEncode = true

theorem MadeOf.decodesByFlags (h : MadeOf s c) (hc : m.class? c.name = some c)
    (hdecode : s.capability.decode = true) : DecodesByFlags m s c := by
  have hinside : ∀ f ∈ s.fields, ∀ (setting : Setting) (n : Nesting)
      (entries : List (String × Value)), Lacks f entries →
        ValidApartFrom setting n c (Name.attributeName f.name) entries →
          ReadsByFlag m f id (checkClass setting n c (.object entries)) := by
    intro f hf setting n entries hlacks hvalid
    obtain ⟨d, hd, hcarries⟩ := exists_of_mem_forall₂_left h.carries hf
    have hflag := h.flags f hf
    rw [hdecode, Bool.and_true] at hflag
    exact readsByFlag_checkClass h.plain h.lawful.attrs hd hcarries hflag hlacks hvalid
  refine ⟨h.decodable hdecode, hinside, fun f hf payload setting entries hgives hlacks hvalid => ?_⟩
  rw [decodeAs_eq_checked hc (h.decodable hdecode), hgives.decode]
  exact (hinside f hf _ _ _ hlacks hvalid).checked

theorem MadeOf.encodesByFlags (h : MadeOf s c) (hc : m.class? c.name = some c)
    (hattrs : AttrsDiffer m) (hencode : s.capability.encode = true) : EncodesByFlags m s c := by
  have hinside : ∀ {v : Value}, Obtained m v → classOf? m v = some c →
      ∀ {n : Nesting} {shape : Shape} {j : Json}, shape.Struct c →
        encodeIn (.ofModule m) n shape v = .ok j → HasKeptKeys m s v j := by
    intro v hv hclass n shape j hshape hj
    obtain ⟨-, hfits⟩ := fits_of_classOf? (sound_of_obtained hattrs hv) hclass
    cases hfits with
    | struct hc' hbase hvalues =>
      cases hc.symm.trans hc'
      exact hasKeptKeys_of_encodeIn h.lawful hc h.carries hshape hj
    | choice hc' hbase hf hneeded hpayload =>
      cases hc.symm.trans hc'
      exact absurd hbase h.plain
  exact ⟨h.encodable hencode, hinside, fun hv hclass _ hj =>
    hinside hv hclass .free (encode_of_encodeInstance hj)⟩

theorem canDecode_of_structBase {base : Client.Base} (h : Client.structBase s = .ok base)
    (hdecode : s.capability.decode = true) (hurl : s.capability.urlEncoded = false) :
    base.canDecode = true := by
  simp only [Client.structBase, hdecode, hurl] at h
  cases hencode : s.capability.encode <;> rw [hencode] at h <;> cases h <;> rfl

theorem canEncode_of_structBase {base : Client.Base} (h : Client.structBase s = .ok base)
    (hencode : s.capability.encode = true) : base.canEncode = true := by
  simp only [Client.structBase, hencode] at h
  cases hurl : s.capability.urlEncoded <;> cases hdecode : s.capability.decode <;>
    rw [hurl, hdecode] at h <;> cases h <;> rfl

theorem madeOf_structClass {className : String → Client.Gen String} {m : Method} {s₀ : Struct}
    (hwf : s₀.WellFormed) (hurl : s₀.capability.urlEncoded = true → s₀.capability.decode = false)
    (h : Client.structClass className m (Schema.resolveStruct s₀) = .ok c) :
    MadeOf (Schema.resolveStruct s₀) c := by
  have hlawful := Client.lawful_structClass hwf h
  have hcarries := carries_structClass h hlawful.attrs
  obtain ⟨base, fields, hbase, -, rfl⟩ := Client.structClass_eq_ok_iff.mp h
  refine ⟨hlawful, Client.structBase_ne_enum hbase, hcarries, fun f hf => ?_, fun hdecode => ?_,
    canEncode_of_structBase hbase⟩
  · rw [Schema.resolveStruct_eq hwf] at hf
    obtain ⟨f₀, -, rfl⟩ := List.mem_map.mp hf
    rfl
  · refine canDecode_of_structBase hbase hdecode (Bool.eq_false_iff.mpr fun htrue => ?_)
    exact Bool.false_ne_true ((hurl htrue).symm.trans hdecode)

end

section

variable {text unit : String} {compiled : Compilation} {module : Module} {e : Endpoint}
  {m : Method} {s : Struct} {c : ClassDef}

/-- Where a structure with its class comes from: an item that has its capability and is right. -/
theorem exists_structClass (hcompiled : compile text unit = .ok compiled)
    (hok : compiled.diagnostics = []) (he : e ∈ compiled.schema.endpoints) (hm : m ∈ e.methods)
    (hs : .struct s ∈ m.items) :
    ∃ module ∈ compiled.modules, module.endpoint = e.name ∧
      ∃ c, module.class? (m.className s.name) = some c ∧ ∃ e₀ : Endpoint, ∃ s₀ : Struct,
        .struct s₀ ∈ e₀.withCapabilities.items ∧ s₀.WellFormed ∧ s = Schema.resolveStruct s₀ ∧
          ∃ className, Client.structClass className m s = .ok c := by
  obtain ⟨-, -, hschema, hmodules⟩ := modules_of_compile hcompiled hok
  rw [schema_of_compile hcompiled hok] at he
  obtain ⟨e₀, he₀, rfl⟩ := List.mem_map.mp he
  obtain ⟨module, hmodule, hmade⟩ := exists_of_mem_forall₂_left hmodules he₀
  have hwf := hschema.endpoints e₀ he₀
  obtain ⟨className, c, hfound, hclass⟩ := Client.exists_class? hwf hmade hm hs
  obtain ⟨s₀, hs₀, rfl⟩ := Schema.exists_of_mem_resolveEndpoint hm hs
  exact ⟨module, hmodule, Client.endpoint_of_ofEndpoint hmade, c, hfound, e₀, s₀, hs₀,
    hwf.items _ hs₀, rfl, className, hclass⟩

/-- Loading leaves a class as it is whose fields no builder method hides. -/
theorem class?_settled_of_builderApart {name : String} (hfound : module.class? name = some c)
    (hapart : BuilderApart c) : (settled module).class? c.name = some c := by
  rw [class?_settled, name_of_class? hfound, hfound, Option.map_some,
    settledClass_of_builderApart hapart]

theorem attrsDiffer_of_compile (hcompiled : compile text unit = .ok compiled)
    (hmodule : module ∈ compiled.modules) : AttrsDiffer (settled module) :=
  attrsDiffer_settled fun _ hd => lawful_of_compile hcompiled hmodule hd

end

/-- Every structure of a source that compiles has its class.  Once the module is loaded, unless a
field has the name of a builder method, a field that is missing from what a structure is decoded
from is no fault exactly if analysis flagged it so, and then it holds the zero value of its type,
which is null for an optional one; and the documents of its instances have the wire names of the
fields in order, without those that analysis flagged and that are null. -/
theorem optional_flags_agree {text unit : String} {compiled : Compilation} {e : Endpoint}
    {m : Method} {s : Struct} (hcompiled : compile text unit = .ok compiled)
    (hok : compiled.diagnostics = []) (he : e ∈ compiled.schema.endpoints) (hm : m ∈ e.methods)
    (hs : .struct s ∈ m.items) :
    ∃ module ∈ compiled.modules, module.endpoint = e.name ∧
      ∃ c, module.class? (m.className s.name) = some c ∧
        (BuilderApart c → ∀ loaded, load module = .ok loaded →
          (s.capability.decode = true → DecodesByFlags loaded s c) ∧
          (s.capability.encode = true → EncodesByFlags loaded s c)) := by
  obtain ⟨module, hmodule, hname, c, hfound, e₀, s₀, hs₀, hwf, rfl, className, hclass⟩ :=
    exists_structClass hcompiled hok he hm hs
  have hmade := madeOf_structClass hwf (Schema.decode_of_urlEncoded hs₀) hclass
  refine ⟨module, hmodule, hname, c, hfound, fun hapart loaded hload => ?_⟩
  obtain rfl := settled_of_load hload
  have hsettled := class?_settled_of_builderApart hfound hapart
  exact ⟨hmade.decodesByFlags hsettled,
    hmade.encodesByFlags hsettled (attrsDiffer_of_compile hcompiled hmodule)⟩

/-! ## A structure with an optional field and a field with a default -/

def flaggedText : String :=
  "[pub A:\x7bPUT \"/t\"=>\x7bstruct R\x7ba:?i32,[default] b:i32\x7d\x7d\x7d]"

def flaggedStruct : Struct where
  name := "R"
  role := none
  fields := [
    { name := "a", type := .optional (.primitive "i32"), attributes := []
      location := Schema.onFirstLine 28 },
    { name := "b", type := .primitive "i32"
      attributes := [⟨.default, .field, Schema.onFirstLine 36⟩]
      location := Schema.onFirstLine 45 }]
  attributes := []
  location := Schema.onFirstLine 19
  capability := .both

theorem flagged_built : (Tree.parse flaggedText "").errors = [] ∧
    (Schema.build (Tree.parse flaggedText "").source).errors = [] ∧
    (Schema.build (Tree.parse flaggedText "").source).schema.endpoints =
      [Schema.soleEndpoint (.struct { flaggedStruct with capability := {} })] := by
  cbv

theorem flagged_literals : Lexer.LiteralsNullFree flaggedText "" := by
  have hlexemes : (Lexer.tokenize flaggedText "").map (fun list =>
      (list.tokens.map (·.lexeme)).filterMap Lexeme.literal?) = .ok ["/t"] := by
    cbv
  exact Lexer.literalsNullFree_of_tokenize hlexemes (by decide)

theorem flaggedStruct_wellFormed : flaggedStruct.WellFormed where
  attributes := ⟨nofun, by decide, nofun⟩
  fieldNames := by decide
  members := by
    intro f hf
    simp only [flaggedStruct, List.mem_cons, List.not_mem_nil, or_false] at hf
    rcases hf with rfl | rfl
    · exact ⟨nofun, by decide, nofun⟩
    · exact ⟨by decide, by decide, by decide⟩
  defaults := by
    intro f hf
    simp only [flaggedStruct, List.mem_cons, List.not_mem_nil, or_false] at hf
    rcases hf with rfl | rfl
    · exact ⟨by decide, fun _ => ⟨rfl, trivial⟩⟩
    · exact ⟨by decide, fun _ => ⟨rfl, by decide, by decide⟩⟩
  errorOnce := by decide
  errorDecoded := by decide
  wires := by decide
  attrs := nodup_attributeNames_a_b

def flaggedA : FieldDef := ⟨"a", .optional (.scalar .int), "a", .absent⟩

def flaggedB : FieldDef := ⟨"b", .scalar .int, "b", .zero .int⟩

/-- The class of the structure. -/
structure FlaggedClass (c : ClassDef) : Prop where
  base : c.base = .both
  builder : c.builder = false
  fields : c.fields = [flaggedA, flaggedB]

namespace FlaggedClass

variable {m : Module} {c : ClassDef}

theorem of_structClass {className : String → Client.Gen String} {method : Method}
    (h : Client.structClass className method (Schema.resolveStruct flaggedStruct) = .ok c) :
    FlaggedClass c := by
  obtain ⟨base, fields, hbase, hfields, rfl⟩ := Client.structClass_eq_ok_iff.mp h
  have hdefs : (Schema.resolveStruct flaggedStruct).fields.mapM
      (Client.fieldDef className (Schema.resolveStruct flaggedStruct).name) =
        .ok [⟨Name.attributeName "a", .optional (.scalar .int), "a", .absent⟩,
          ⟨Name.attributeName "b", .scalar .int, "b", .zero .int⟩] := rfl
  rw [attributeName_a, attributeName_b] at hdefs
  exact ⟨(Except.ok.inj hbase).symm, rfl, Except.ok.inj (hfields.symm.trans hdefs)⟩

theorem builderApart (h : FlaggedClass c) : BuilderApart c := builderApart_of_plain h.builder

theorem classLoads (h : FlaggedClass c) : ClassLoads c := by
  refine classLoads_of_plain h.builder ?_ ?_
  · rw [hidesClass, h.fields]
    rfl
  · rw [h.fields]
    decide

/-- Both fields may be missing. -/
theorem decodeAs_eq (h : FlaggedClass c) (hc : m.class? c.name = some c) :
    decodeAs m c.name (.object []) = .ok (.model c.name [("a", .null), ("b", .int 0)]) := by
  refine decodeAs_of_decode hc (Or.inl h.base) ?_
  show checkClass _ _ c _ = _
  have hgiven : ∀ s n, checkFields s n c.fields [] =
      .ok [⟨"a", none, .null⟩, ⟨"b", none, .int 0⟩] := by
    intro s n
    rw [h.fields, checkFields_eq_ok_iff]
    exact .cons (checkField_of_none rfl) (.cons (checkField_of_none rfl) .nil)
  rw [checkClass_object, hgiven]
  show assemble c _ = _
  rw [assemble, if_neg (by rw [h.base]; decide)]
  rfl

theorem validApartFrom (h : FlaggedClass c) (s : Setting) (n : Nesting) (attr : String) :
    ValidApartFrom s n c attr [] := by
  intro d hd _
  rw [h.fields] at hd
  simp only [List.mem_cons, List.not_mem_nil, or_false] at hd
  rcases hd with rfl | rfl
  · exact ⟨_, checkField_of_none rfl⟩
  · exact ⟨_, checkField_of_none rfl⟩

theorem exists_encodeInstance (h : FlaggedClass c) (hc : m.class? c.name = some c) :
    ∃ j, encodeInstance m (.model c.name [("a", .null), ("b", .int 0)]) = .ok j := by
  have ha : c.field? "a" = some flaggedA := by rw [ClassDef.field?, h.fields]; rfl
  have hb : c.field? "b" = some flaggedB := by rw [ClassDef.field?, h.fields]; rfl
  have hattrs : ∀ w n, encodeAttrs w n c [("a", .null), ("b", .int 0)] =
      .ok [("a", .null), ("b", .int 0)] := by
    intro w n
    have hnull : encodeIn w n .whole .null = .ok .null := by rw [encodeIn]; rfl
    have hint : encodeIn w n .whole (.int 0) = .ok (.int 0) := by rw [encodeIn]; rfl
    rw [encodeAttrs, ha, encodeAttrs, hb, encodeAttrs]
    show (do let j ← encodeIn w n .whole .null; _) = _
    rw [hnull]
    show (do let js ← (do let j ← encodeIn w n .whole (.int 0); _); _) = _
    rw [hint]
    rfl
  exact ⟨_, encodeInstance_model hc (by rw [h.base]; rfl) (hattrs _ _)⟩

end FlaggedClass

/-- An object without entries is decoded, since both fields are flagged, and the instance is encoded
again. -/
theorem flagged_fields_missing : ∃ compiled e m s module c loaded v j,
    compile flaggedText "" = .ok compiled ∧ compiled.diagnostics = [] ∧
    e ∈ compiled.schema.endpoints ∧ m ∈ e.methods ∧ .struct s ∈ m.items ∧
    module ∈ compiled.modules ∧ BuilderApart c ∧ load module = .ok loaded ∧ s.fields ≠ [] ∧
    decodeAs loaded c.name (.object []) = .ok v ∧
    (∀ f ∈ s.fields, f.defaultIfMissing = true ∧ ∃ zero, f.type.zero? = some zero ∧
      attribute? loaded v (Name.attributeName f.name) = some zero) ∧
    encodeInstance loaded v = .ok j ∧ HasKeptKeys loaded s v j := by
  obtain ⟨compiled, module, c, className, hcompiled, hok, he, hmodules, hclasses, hclass⟩ :=
    exists_sole_item (j := .struct flaggedStruct) flagged_built rfl rfl flaggedStruct_wellFormed
  have hflagged := FlaggedClass.of_structClass hclass
  have hc := class?_settled_sole hclasses hflagged.builder
  have hload := load_of_compile hcompiled hok flagged_literals oneLine_empty
    (hmodules ▸ List.mem_singleton_self module)
    (hclasses ▸ List.forall_mem_singleton.mpr hflagged.classLoads)
  obtain ⟨found, hmodule, -, d, hfound, hagree⟩ := optional_flags_agree hcompiled hok he
    (List.mem_singleton_self _) (List.mem_singleton_self _)
  rw [hmodules, List.mem_singleton] at hmodule
  subst hmodule
  have hd := List.mem_of_find?_eq_some hfound
  rw [hclasses, List.mem_singleton] at hd
  subst hd
  obtain ⟨hdecodes, hencodes⟩ := hagree hflagged.builderApart _ hload
  have hdecoded := hflagged.decodeAs_eq hc
  obtain ⟨j, hj⟩ := hflagged.exists_encodeInstance hc
  have hpayload : Obtained (settled found) (.object []) := .object fun _ he => nomatch he
  have hv := Obtained.decoded hpayload hdecoded
  refine ⟨compiled, _, _, _, found, d, _, _, j, hcompiled, hok, he, List.mem_singleton_self _,
    List.mem_singleton_self _, hmodules ▸ List.mem_singleton_self found, hflagged.builderApart,
    hload, nofun, hdecoded, fun f hf => ?_, hj, (hencodes rfl).document hv hc hj⟩
  have hread := (hdecodes rfl).payload f hf (.object []) nofun (hflagged.validApartFrom _ _ _)
  exact ⟨hread.succeeds.mp ⟨_, hdecoded⟩, hread.value _ hdecoded⟩

/-! ## A response behind a path with a null character -/

def nullResponseText : String :=
  "[pub A:\x7bGET \"/\x00\"=>\x7bResponse\x7ba:?i32\x7d\x7d\x7d]"

def nullResponse : Struct where
  name := "Response"
  role := some .response
  fields := [
    { name := "a", type := .optional (.primitive "i32"), attributes := []
      location := Schema.onFirstLine 28 }]
  attributes := []
  location := Schema.onFirstLine 19

def nullResponseMethod (s : Struct) : Method :=
  ⟨.get, ⟨"/\x00", [.literal "/\x00"]⟩, [.struct s], Schema.onFirstLine 8⟩

def nullResponseEndpoint (s : Struct) : Endpoint where
  name := "A"
  isPublic := true
  methods := [nullResponseMethod s]
  location := Schema.onFirstLine 0

theorem nullResponse_built : (Tree.parse nullResponseText "").errors = [] ∧
    (Schema.build (Tree.parse nullResponseText "").source).errors = [] ∧
    (Schema.build (Tree.parse nullResponseText "").source).schema.endpoints =
      [nullResponseEndpoint nullResponse] := by
  cbv

/-- The response with the capability that its role gives it. -/
def receivedResponse : Struct := { nullResponse with capability := ⟨false, true, false⟩ }

theorem nullResponse_capable :
    (nullResponseEndpoint nullResponse).withCapabilities =
      nullResponseEndpoint receivedResponse := by
  cbv

theorem receivedResponse_wellFormed : receivedResponse.WellFormed :=
  Schema.wellFormed_of_plain ⟨nofun, Nat.zero_le 1, nofun⟩ (List.forall_mem_singleton.mpr rfl)
    (List.nodup_singleton _) (List.nodup_singleton _) (List.nodup_singleton _)

theorem nullResponseEndpoint_wellFormed : (nullResponseEndpoint nullResponse).WellFormed := by
  refine Schema.wellFormed_of_sole_item (j := .struct receivedResponse) rfl rfl rfl
    List.nodup_nil nofun ?_ receivedResponse_wellFormed
  rw [nullResponse_capable]
  rfl

/-- The field is flagged as one that may be missing, but nothing is decoded, since the module cannot
be loaded. -/
theorem flagged_field_not_decoded : ∃ compiled e m s f module c,
    compile nullResponseText "" = .ok compiled ∧ compiled.diagnostics = [] ∧
    e ∈ compiled.schema.endpoints ∧ m ∈ e.methods ∧ .struct s ∈ m.items ∧
    s.capability.decode = true ∧ f ∈ s.fields ∧ f.defaultIfMissing = true ∧
    compiled.modules = [module] ∧ module.class? (m.className s.name) = some c ∧ BuilderApart c ∧
    hidesClass c = false ∧ load module = .error .nullCharacter := by
  obtain ⟨compiled, module, hcompiled, hok, hendpoints, hmodules, hmade⟩ :=
    exists_sole_module nullResponse_built nullResponseEndpoint_wellFormed
  have hresolved : Schema.resolveEndpoint (nullResponseEndpoint nullResponse) =
      nullResponseEndpoint (Schema.resolveStruct receivedResponse) := by
    rw [Schema.resolveEndpoint, nullResponse_capable]
    rfl
  have he : nullResponseEndpoint (Schema.resolveStruct receivedResponse) ∈
      compiled.schema.endpoints := by
    rw [schema_of_compile hcompiled hok]
    show _ ∈ compiled.built.schema.endpoints.map Schema.resolveEndpoint
    rw [hendpoints, List.map_singleton, hresolved]
    exact List.mem_singleton_self _
  obtain ⟨found, hfound, -, c, hc, -, -, -, -, -, className, hclass⟩ := exists_structClass hcompiled
    hok he (List.mem_singleton_self _) (List.mem_singleton_self _)
  rw [hmodules, List.mem_singleton] at hfound
  subst hfound
  obtain ⟨base, fields, -, hfields, rfl⟩ := Client.structClass_eq_ok_iff.mp hclass
  cases hfields
  exact ⟨compiled, _, _, _, _, found, _, hcompiled, hok, he, List.mem_singleton_self _,
    List.mem_singleton_self _, rfl, List.mem_singleton_self _, rfl, hmodules, hc,
    builderApart_of_plain rfl, rfl,
    load_of_null_mem_path nullResponseEndpoint_wellFormed hmade (List.mem_singleton_self _)
      (by decide)⟩

end Wire
end EndpointDsl
