import EndpointDsl.Proofs.Json.Literal
import EndpointDsl.Proofs.Wire.RoundTrip

/-!
Instances of compiled classes come back from what they are written as.

The document of a structure, or of a variant with a payload, is an object, from which the instance
is made again.  A variant without payload is written as a bare text.  Texts are taken for the text
of a document, so such a variant comes back only from the text of its document.
-/

namespace EndpointDsl
namespace Wire

open Client (ClassDef FieldDef FieldType Module)

variable {m : Module} {c : ClassDef} {j : Json}

/-! ## Instances -/

/-- Whether an instance is a variant without payload. -/
def IsUnit (c : ClassDef) : Value → Prop
  | .choice _ attr _ => attr ∈ c.units
  | _ => False

theorem inside?_free {readers : List Reader} {inner : Nesting}
    (h : Shape.inside? readers ⟨default, 0⟩ c .free = some inner) :
    inner = .start readers c.name := by
  have hresume : (if (Nesting.resume readers c.name 0).depth ≤ referenceLimit then
    some (Nesting.resume readers c.name 0) else none) = some inner := h
  split at hresume
  · exact (Option.some.inj hresume).symm
  · cases hresume

theorem decode_of_encode_model {names : String → Prop} (hnames : LegibleAll m names) {name : String}
    (hname : names name) (hc : m.class? name = some c) (hbase : c.base ≠ .enum)
    {value : FieldDef → Value}
    (hfields : ∀ f ∈ c.fields, ¬ FallsBack f (value f) → Fits m f.fieldType (value f))
    (h : encode m (.model name (c.fields.map fun f => (f.attr, value f))) = .ok j) :
    decode m c (.ofJson j) = .ok (.model name (c.fields.map fun f => (f.attr, value f))) := by
  obtain ⟨hlegible, hreached⟩ := hnames hname hc
  have hparts : ∀ f ∈ c.fields, RoundTrips m f.fieldType (value f) := fun f hf =>
    roundTrips_field (hlegible.lawful.fields f hf) fun hback =>
      roundTrips_of_fits hnames (hfields f hf hback) (hreached f hf)
  obtain ⟨inner, hinner, hread⟩ := checkClass_of_encodeIn_model hlegible hbase hc hparts .free h
  obtain ⟨_, entries, -, -, rfl⟩ := encodeIn_model hc .free h
  rw [inside?_free hinner] at hread
  exact hread

theorem decode_of_encode_choice {names : String → Prop} (hnames : LegibleAll m names)
    {name : String}
    (hname : names name) (hc : m.class? name = some c) (hbase : c.base = .enum) {f : FieldDef}
    (hf : f ∈ c.fields) {payload : Value}
    (hneeded : payload = .null → c.payloadRequired.contains f.attr = false)
    (hpayload : Fits m f.fieldType payload) (hunit : f.attr ∉ c.units)
    (h : encode m (.choice name f.attr payload) = .ok j) :
    decode m c (.ofJson j) = .ok (.choice name f.attr payload) := by
  obtain ⟨hlegible, hreached⟩ := hnames hname hc
  obtain ⟨inner, hinner, hread⟩ := checkClass_of_encodeIn_choice hlegible hbase hc hf hneeded
    hpayload (roundTrips_of_fits hnames hpayload (hreached f hf)) .free h
  obtain ⟨_, -, hvariant⟩ := encodeIn_choice hc .free h
  rcases encodeVariant_eq_ok hlegible.lawful hf hvariant with ⟨hmember, -⟩ | ⟨-, document, -, rfl⟩
  · exact absurd hmember hunit
  · rw [inside?_free hinner] at hread
    exact hread

/-- A variant without payload comes back from the text of its document. -/
theorem decode_of_encode_unit (hlegible : Legible c) {name : String} (hc : m.class? name = some c)
    (hbase : c.base = .enum) {f : FieldDef} (hf : f ∈ c.fields) {payload : Value}
    (hneeded : payload = .null → c.payloadRequired.contains f.attr = false)
    (hpayload : Fits m f.fieldType payload) (hunit : f.attr ∈ c.units)
    (h : encode m (.choice name f.attr payload) = .ok j) :
    j = .string f.wire ∧
      decode m c (.text (Json.compact .raw j)) = .ok (.choice name f.attr payload) := by
  obtain ⟨_, -, hvariant⟩ := encodeIn_choice hc .free h
  rcases encodeVariant_eq_ok hlegible.lawful hf hvariant with ⟨-, rfl⟩ | ⟨hmember, -⟩
  · refine ⟨rfl, ?_⟩
    show ofDocument m c (Json.compact .raw (.string f.wire)) = _
    rw [ofDocument, Json.readWithin?_compact_string, ← name_of_class? hc]
    exact checkClass_wire hlegible hbase hf hunit hneeded hpayload
  · exact absurd hunit hmember

/-! ## Compiled modules -/

/-- A class is reached from another through the types of fields. -/
def Reaches (m : Module) : String → String → Prop :=
  Relation.ReflTransGen fun name other => other ∈ Reader.references m name

theorem legibleAll_settled {module : Module} {name : String}
    (hlawful : ∀ d ∈ module.classes, d.Lawful)
    (hapart : ∀ d ∈ module.classes, Reaches module name d.name → NamesApart d ∧ BuilderApart d) :
    LegibleAll (settled module) (Reaches module name) := by
  intro other d hreached hd
  rw [class?_settled] at hd
  obtain ⟨d, hfound, rfl⟩ := Option.map_eq_some_iff.mp hd
  have hmem : d ∈ module.classes := List.mem_of_find?_eq_some hfound
  obtain rfl := name_of_class? hfound
  obtain ⟨hnames, hbuilder⟩ := hapart d hmem hreached
  rw [settledClass_of_builderApart hbuilder]
  refine ⟨⟨hlawful d hmem, hnames⟩, fun f hf next hnext => hreached.tail ?_⟩
  rw [Reader.references, hfound]
  exact List.mem_filterMap.mpr ⟨f, hf, hnext⟩

theorem attrsDiffer_settled {module : Module} (h : ∀ d ∈ module.classes, d.Lawful) :
    AttrsDiffer (settled module) := by
  intro d hd
  obtain ⟨d, hmem, rfl⟩ := List.mem_map.mp hd
  have hsame : (settledClass d).fields.map (·.attr) = d.fields.map (·.attr) := by
    rw [settledClass, List.map_map]
    exact List.map_congr_left fun f _ => settledField_attr d f
  rw [hsame]
  exact (h d hmem).attrs

theorem decodable_eq_ok (hc : m.class? c.name = some c) (hcan : c.base.canDecode = true) :
    decodable m c.name = .ok c := by
  rw [decodable, hc]
  exact if_pos hcan

theorem decodeAs_eq_checked (hc : m.class? c.name = some c) (hcan : c.base.canDecode = true)
    (payload : Value) : decodeAs m c.name payload = checked (decode m c payload) := by
  rw [decodeAs, decodable_eq_ok hc hcan]
  rfl

theorem decodeAs_of_decode (hc : m.class? c.name = some c) (hbase : c.base = .both ∨ c.base = .enum)
    {payload x : Value} (h : decode m c payload = .ok x) : decodeAs m c.name payload = .ok x := by
  have hcan : c.base.canDecode = true := by
    rcases hbase with hboth | henum
    · rw [hboth]; rfl
    · rw [henum]; rfl
  rw [decodeAs_eq_checked hc hcan]
  exact checked_eq_ok_iff.mpr h

theorem encode_of_encodeInstance {x : Value} (h : encodeInstance m x = .ok j) :
    encode m x = .ok j := by
  obtain ⟨c, -, h⟩ := bind_eq_ok_iff.mp h
  split at h
  · unfold encoded at h
    split at h
    · next hencode => cases h; exact hencode
    · cases h
  · cases h

theorem classOf?_of_fits {name : String} {x : Value} (h : Fits m (.model name) x) :
    classOf? m x = m.class? name := by
  cases h <;> rfl

theorem fits_of_classOf? {x : Value} (hx : Sound m x) (hc : classOf? m x = some c) :
    m.class? c.name = some c ∧ Fits m (.model c.name) x := by
  cases hx with
  | scalar hscalar hproper => cases x <;> first | cases hc | exact hscalar.elim
  | list h => cases hc
  | object h => cases hc
  | made h =>
    rw [classOf?_of_fits h] at hc
    obtain rfl := name_of_class? hc
    exact ⟨hc, h⟩

/-- An instance that a program obtains, of a class that is both written and read, comes back from
its document.  Only the document of a variant without payload is a bare text, which is taken for
the text of a document, so that such a variant comes back from the text of its document.  The
names of the fields and wires must be apart in all classes that the instance can hold. -/
theorem obtained_instance_comes_back {text unit : String} {compiled : Compilation} {module : Module}
    {x : Value} (hcompiled : compile text unit = .ok compiled) (hmodule : module ∈ compiled.modules)
    (hx : Obtained (settled module) x) (hclass : classOf? (settled module) x = some c)
    (hbase : c.base = .both ∨ c.base = .enum)
    (hapart : ∀ d ∈ module.classes, Reaches module c.name d.name → NamesApart d ∧ BuilderApart d)
    (hj : encodeInstance (settled module) x = .ok j) :
    (¬ IsUnit c x → decodeAs (settled module) c.name (.ofJson j) = .ok x) ∧
      (IsUnit c x → (∃ f ∈ c.fields, j = .string f.wire) ∧
        ∃ written, writeInstance (settled module) x = .ok written ∧
          decodeAs (settled module) c.name (.text written) = .ok x) := by
  have hlawful : ∀ d ∈ module.classes, d.Lawful := fun d hd =>
    lawful_of_compile hcompiled hmodule hd
  have hnames := legibleAll_settled hlawful hapart
  have hsound := sound_of_obtained (attrsDiffer_settled hlawful) hx
  obtain ⟨hc, hfits⟩ := fits_of_classOf? hsound hclass
  have hencode := encode_of_encodeInstance hj
  have hself : Reaches module c.name c.name := .refl
  cases hfits with
  | struct hc' hstruct hfields =>
    cases hc.symm.trans hc'
    refine ⟨fun _ => decodeAs_of_decode hc hbase ?_, fun hunit => hunit.elim⟩
    exact decode_of_encode_model hnames hself hc hstruct hfields hencode
  | choice hc' henum hf hneeded hpayload =>
    cases hc.symm.trans hc'
    refine ⟨fun hunit => decodeAs_of_decode hc hbase ?_, fun hunit => ?_⟩
    · exact decode_of_encode_choice hnames hself hc henum hf hneeded hpayload hunit hencode
    · obtain ⟨rfl, hread⟩ := decode_of_encode_unit (hnames hself hc).1 hc henum hf hneeded hpayload
        hunit hencode
      refine ⟨⟨_, hf, rfl⟩, _, ?_, decodeAs_of_decode hc hbase hread⟩
      rw [writeInstance, hj]
      rfl

/-! ## An enum with and without payload -/

def markedText : String := "[pub A:\x7bPUT \"/t\"=>\x7benum T\x7bL(i32),N\x7d\x7d\x7d]"

def markedEnum : Schema.Enum :=
  { name := "T"
    variants :=
      [⟨"L", some (.primitive "i32"), [], Schema.onFirstLine 26, none⟩,
        ⟨"N", none, [], Schema.onFirstLine 33, none⟩]
    attributes := [], location := Schema.onFirstLine 19, capability := .both }

theorem marked_built : (Tree.parse markedText "").errors = [] ∧
    (Schema.build (Tree.parse markedText "").source).errors = [] ∧
    (Schema.build (Tree.parse markedText "").source).schema.endpoints =
      [Schema.soleEndpoint (.enum { markedEnum with capability := {} })] := by
  cbv

theorem attributeName_L : Name.attributeName "L" = "L" :=
  attributeName_eq_self (by cbv) (by cbv)

theorem attributeName_N : Name.attributeName "N" = "N" :=
  attributeName_eq_self (by cbv) (by cbv)

theorem markedEnum_wellFormed : markedEnum.WellFormed where
  attributes := ⟨by simp [markedEnum], by simp [markedEnum], by simp [markedEnum]⟩
  noBuilder := by simp [markedEnum]
  inhabited := by simp [markedEnum]
  variantNames := by decide
  members := by
    intro v hv
    simp only [markedEnum, List.mem_cons, List.not_mem_nil, or_false] at hv
    rcases hv with rfl | rfl
    · exact ⟨by simp, by simp, by simp⟩
    · exact ⟨by simp, by simp, by simp⟩
  plain := by
    intro v hv
    simp only [markedEnum, List.mem_cons, List.not_mem_nil, or_false] at hv
    rcases hv with rfl | rfl
    · simp
    · simp
  wires := by decide
  attrs := by
    show [Name.attributeName "L", Name.attributeName "N"].Nodup
    rw [attributeName_L, attributeName_N]
    decide

def variantL : FieldDef := ⟨"L", .optional (.scalar .int), "L", .absent⟩

def variantN : FieldDef := ⟨"N", .unit, "N", .absent⟩

/-- The class of the enum. -/
structure MarkedClass (c : ClassDef) : Prop where
  base : c.base = .enum
  builder : c.builder = false
  fields : c.fields = [variantL, variantN]
  units : c.units = ["N"]
  needed : c.payloadRequired = ["L"]

theorem marked_compiles : ∃ compiled module c, compile markedText "" = .ok compiled ∧
    module ∈ compiled.modules ∧ module.classes = [c] ∧ MarkedClass c := by
  obtain ⟨compiled, module, c, className, hcompiled, hmodule, hclasses, hclass⟩ :=
    exists_sole_class (j := .enum markedEnum) marked_built rfl rfl markedEnum_wellFormed
  refine ⟨compiled, module, c, hcompiled, hmodule, hclasses, ?_⟩
  replace hclass : Client.enumClass className
      (Schema.soleMethod (.enum (Schema.resolveEnum markedEnum))) (Schema.resolveEnum markedEnum) =
      .ok c := hclass
  obtain ⟨fields, -, -, hfields, rfl⟩ := Client.enumClass_eq_ok_iff.mp hclass
  have hdefs : (Schema.resolveEnum markedEnum).variants.mapM (Client.variantDef className "T") = .ok
      [⟨Name.attributeName "L", .optional (.scalar .int), "L", .absent⟩,
        ⟨Name.attributeName "N", .unit, "N", .absent⟩] := rfl
  rw [attributeName_L, attributeName_N] at hdefs
  refine ⟨rfl, rfl, Except.ok.inj (hfields.symm.trans hdefs), ?_, ?_⟩
  · exact congrArg (fun name => [name]) attributeName_N
  · exact congrArg (fun name => [name]) attributeName_L

namespace MarkedClass

theorem mem_variantL (h : MarkedClass c) : variantL ∈ c.fields := by
  rw [h.fields]
  exact List.mem_cons_self

theorem mem_variantN (h : MarkedClass c) : variantN ∈ c.fields := by
  rw [h.fields]
  exact List.mem_cons_of_mem _ (List.mem_singleton_self _)

theorem namesApart (h : MarkedClass c) : NamesApart c := by
  rw [NamesApart, h.fields]
  decide

end MarkedClass

/-- A program makes the variant with a payload from its entry alone. -/
theorem construct_marked (hlawful : c.Lawful) (hmarked : MarkedClass c)
    (hc : m.class? c.name = some c) :
    construct m c.name [("L", .int 5)] = .ok (.choice c.name "L" (.int 5)) := by
  rw [construct, hc]
  refine checked_eq_ok_iff.mpr ?_
  have hread := checkFields_assemble (s := .program m)
    (n := .start (Reader.ofModule m) c.name) hlawful hmarked.base
    hmarked.namesApart hmarked.mem_variantL (.int 5)
  show checkClass _ _ c (.object [(variantL.wire, .int 5)]) = _
  rw [checkClass_object]
  refine hread.trans (ownVariant_of_payload ?_ nofun)
  rw [variantL, checkValue_optional (v := .int 5) nofun, checkValue_scalar_eq_ok_iff]
  rfl

theorem decodeAs_marked (hlawful : c.Lawful) (hmarked : MarkedClass c)
    (hc : m.class? c.name = some c) :
    decodeAs m c.name (.text "\"N\"") = .ok (.choice c.name "N" .null) := by
  refine decodeAs_of_decode hc (Or.inr hmarked.base) ?_
  show ofDocument m c (Json.compact .raw (.string "N")) = _
  rw [ofDocument, Json.readWithin?_compact_string]
  have hneeded : c.payloadRequired.contains variantN.attr = false := by
    rw [hmarked.needed]
    rfl
  have hunit : variantN.attr ∈ c.units := by
    rw [hmarked.units]
    exact List.mem_singleton_self _
  exact checkClass_wire ⟨hlawful, hmarked.namesApart⟩ hmarked.base hmarked.mem_variantN hunit
    (fun _ => hneeded) (.unit : Fits m .unit .null)

theorem depth_start_le (readers : List Reader) (name : String) :
    (Nesting.start readers name).depth ≤ referenceLimit := by
  unfold Nesting.start Nesting.resume Nesting.refer
  split
  · exact (by decide : 1 ≤ 255)
  · exact Nat.zero_le 255

theorem inside?_start (readers : List Reader) (c : ClassDef) :
    Shape.inside? readers ⟨default, 0⟩ c .free = some (.start readers c.name) :=
  if_pos (depth_start_le readers c.name)

theorem encodeInstance_choice (hc : m.class? c.name = some c) (hbase : c.base = .enum)
    {attr : String}
    {payload : Value}
    (h : encodeVariant c c attr (fun type => encodeIn (.ofModule m)
      (.start (Reader.ofModule m) c.name) (Shape.ofType m type) payload) = .ok j) :
    encodeInstance m (.choice c.name attr payload) = .ok j := by
  have hencode : encode m (.choice c.name attr payload) = .ok j := by
    rw [encode, encodeIn]
    simp only [Shape.misfit?]
    have hclass : (Writing.ofModule m).module.class? c.name = some c := hc
    have hinside : Shape.inside? (Writing.ofModule m).readers ⟨default, 0⟩ c .free =
        some (.start (Reader.ofModule m) c.name) := inside?_start _ c
    rw [hclass]
    simp only [hinside]
    exact h
  have hcan : c.base.canEncode = true := by rw [hbase]; rfl
  rw [encodeInstance, classOf?, hc]
  show (if c.base.canEncode then encoded m _ else _) = _
  rw [if_pos hcan, encoded, hencode]

theorem class?_sole {module : Module} (hclasses : module.classes = [c]) :
    module.class? c.name = some c := by
  rw [Module.class?, hclasses]
  exact List.find?_cons_of_pos (beq_self_eq_true c.name)

theorem class?_settled_sole {module : Module} (hclasses : module.classes = [c])
    (hbuilder : c.builder = false) : (settled module).class? c.name = some c := by
  rw [class?_settled, class?_sole hclasses, Option.map_some, settledClass_of_plain hbuilder]

/-- The variant without payload does not come back from its document itself. -/
theorem unit_variant_unreadable : ∃ compiled module c x, compile markedText "" = .ok compiled ∧
    module ∈ compiled.modules ∧ Obtained (settled module) x ∧
    classOf? (settled module) x = some c ∧ c.base = .enum ∧
    (∀ d ∈ module.classes, NamesApart d ∧ BuilderApart d) ∧
    encodeInstance (settled module) x = .ok (.string "N") ∧
    decodeAs (settled module) c.name (.ofJson (.string "N")) =
      .error (.invalid [⟨.documentUnreadable, []⟩]) := by
  obtain ⟨compiled, module, c, hcompiled, hmodule, hclasses, hmarked⟩ := marked_compiles
  have hlawful : c.Lawful :=
    lawful_of_compile hcompiled hmodule (hclasses ▸ List.mem_singleton_self c)
  have hc := class?_settled_sole hclasses hmarked.builder
  refine ⟨compiled, module, c, .choice c.name "N" .null, hcompiled, hmodule, ?_, hc, hmarked.base,
    ?_, ?_, ?_⟩
  · have hpayload : Obtained (settled module) (.text "\"N\"") := .scalar trivial trivial
    exact .decoded hpayload (decodeAs_marked hlawful hmarked hc)
  · intro d hd
    rw [hclasses, List.mem_singleton] at hd
    rw [hd]
    exact ⟨hmarked.namesApart, builderApart_of_plain hmarked.builder⟩
  · refine encodeInstance_choice hc hmarked.base ?_
    have hfield := field?_of_mem hlawful.attrs hmarked.mem_variantN
    rw [encodeVariant, ClassDef.wire, hmarked.units, show c.field? "N" = some variantN from hfield]
    rfl
  · have hdecodable : decodable (settled module) c.name = .ok c := by
      rw [decodable, hc]
      exact if_pos (by rw [hmarked.base]; rfl)
    have hunreadable : Json.readWithin? documentLimits "N" = none :=
      Json.readWithin?_of_keyword rfl (by decide) rfl
    rw [decodeAs, hdecodable]
    show checked (ofDocument (settled module) c "N") = _
    rw [ofDocument, hunreadable]
    rfl

/-- The variant with a payload does. -/
theorem payload_variant_comes_back : ∃ compiled module c x j, compile markedText "" = .ok compiled ∧
    module ∈ compiled.modules ∧ Obtained (settled module) x ∧
    classOf? (settled module) x = some c ∧ encodeInstance (settled module) x = .ok j ∧
    decodeAs (settled module) c.name (.ofJson j) = .ok x := by
  obtain ⟨compiled, module, c, hcompiled, hmodule, hclasses, hmarked⟩ := marked_compiles
  have hlawful : c.Lawful :=
    lawful_of_compile hcompiled hmodule (hclasses ▸ List.mem_singleton_self c)
  have hc := class?_settled_sole hclasses hmarked.builder
  have hx : Obtained (settled module) (.choice c.name "L" (.int 5)) := by
    refine .constructed (fun e he => ?_) (construct_marked hlawful hmarked hc)
    rw [List.mem_singleton.mp he]
    exact .scalar trivial trivial
  have hj : encodeInstance (settled module) (.choice c.name "L" (.int 5)) =
      .ok (.object [("L", .int 5)]) := by
    refine encodeInstance_choice hc hmarked.base ?_
    have hfield := field?_of_mem hlawful.attrs hmarked.mem_variantL
    rw [encodeVariant, ClassDef.wire, hmarked.units, show c.field? "L" = some variantL from hfield]
    rfl
  refine ⟨compiled, module, c, _, _, hcompiled, hmodule, hx, hc, hj, ?_⟩
  refine (obtained_instance_comes_back hcompiled hmodule hx hc (Or.inr hmarked.base) ?_ hj).1 ?_
  · intro d hd _
    rw [hclasses, List.mem_singleton] at hd
    rw [hd]
    exact ⟨hmarked.namesApart, builderApart_of_plain hmarked.builder⟩
  · show "L" ∉ c.units
    rw [hmarked.units]
    decide

end Wire
end EndpointDsl
