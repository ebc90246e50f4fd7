import EndpointDsl.Proofs.Client.Closed
import EndpointDsl.Proofs.Wire.Loading
import EndpointDsl.Proofs.Wire.Members

/-!
Whether an attribute hides a name that the body of its class needs.

Attributes keep away from what is built in and what is imported, but not from the classes of the
module.  So the names of a body that its fields can hide are the classes that the fields refer to,
and the class itself where its builder methods return it.  The class itself is known under its own
name while it is made.  Any other class that is hidden keeps the module from being loaded.
-/

namespace EndpointDsl
namespace Client

open Schema (Endpoint Method)

/-! ## What attributes keep away from -/

theorem isReserved_of_mem_plain : ∀ name ∈ builtins ++ importable,
    (Name.isReserved name || "model_".toList.isPrefixOf name.toList) = true := by
  decide +kernel

theorem getLast?_of_mem_plain : ∀ name ∈ builtins ++ importable,
    name.toList.getLast? ≠ some '_' := by
  decide +kernel

/-- No member of an item becomes an attribute that is built in or imported. -/
theorem attr_not_mem_plain {className : String → Gen String} {m : Method} {i : Schema.Item}
    {c : ClassDef} (h : itemClass className m i = .ok c) {f : FieldDef} (hf : f ∈ c.fields) :
    f.attr ∉ builtins ++ importable := by
  obtain ⟨name, -, hattr⟩ := exists_name_of_mem_fields h hf
  rw [hattr]
  exact attributeName_not_mem isReserved_of_mem_plain getLast?_of_mem_plain name

/-! ## Names in the body of a class -/

/-- The classes that the fields of a class refer to. -/
def ClassDef.references (c : ClassDef) : List String :=
  c.fields.filterMap (·.fieldType.className?)

theorem FieldType.mem_names_of_className? {t : FieldType} {cls : String}
    (h : t.className? = some cls) : cls ∈ t.names := by
  induction t with
  | scalar kind => cases h
  | list item ih => exact List.mem_cons_of_mem _ (ih h)
  | optional inner ih => exact List.mem_cons_of_mem _ (ih h)
  | unit => cases h
  | model className => exact List.mem_singleton.mpr (Option.some.inj h).symm

theorem mem_plain_of_mem_fieldDefault {f : FieldDef} {name : String}
    (h : name ∈ Text.usedNames (Layout.fieldDefault f).toList) :
    name ∈ builtins ++ importable := by
  rcases mem_fieldDefault_cases h with rfl | hbuiltin
  · decide
  · exact List.mem_append_left _ hbuiltin

/-- A name in a type that is neither built in nor imported is that of a class. -/
theorem mem_names_iff_of_not_mem_plain {m : Module} {f : FieldDef} (hf : f ∈ m.fields)
    {name : String} (h : name ∉ builtins ++ importable) :
    name ∈ f.fieldType.names ↔ f.fieldType.className? = some name := by
  refine ⟨fun hname => ?_, FieldType.mem_names_of_className?⟩
  rcases mem_names_cases hname with hbuiltin | ⟨i, hi, rfl⟩ | hclass
  · exact absurd (List.mem_append_left _ hbuiltin) h
  · have himport : i ∈ m.imports :=
      List.mem_append_left _ (List.mem_flatMap.mpr ⟨f, hf, hi⟩)
    exact absurd (List.mem_append_right _ (importable_of_mem_imports himport)) h
  · exact hclass

/-- What is neither built in nor imported stands in the body of a class where the fields refer to it
or the builder methods return it. -/
theorem Module.Rooted.mem_usedNames_iff {m : Module} (hrooted : m.Rooted) {c : ClassDef}
    (hc : c ∈ m.classes) (hself : c.name ≠ "self") (hfields : c.fields ≠ []) {name : String}
    (hname : name ∉ builtins ++ importable) :
    name ∈ c.usedNames ↔ name ∈ c.references ∨ (c.builder = true ∧ name = c.name) := by
  have hmem : ∀ f ∈ c.fields, f ∈ m.fields := fun f hf => List.mem_flatMap.mpr ⟨c, hc, hf⟩
  have htypes : ∀ f ∈ c.fields, (name ∈ f.fieldType.names ↔ f.fieldType.className? = some name) :=
    fun f hf => mem_names_iff_of_not_mem_plain (hmem f hf) hname
  have hrefers : name ∈ c.references ↔ ∃ f ∈ c.fields, f.fieldType.className? = some name :=
    List.mem_filterMap
  have hdeclared : (name ∈ c.fields.flatMap fun f => Text.usedNames f.fieldType.text.toList ++
      Text.usedNames (Layout.fieldDefault f).toList) ↔ name ∈ c.references := by
    rw [List.mem_flatMap, hrefers]
    refine exists_congr fun f => and_congr_right fun hf => ?_
    rw [List.mem_append, hrooted.usedNames_text (hmem f hf), htypes f hf]
    exact or_iff_left fun h => hname (mem_plain_of_mem_fieldDefault h)
  have hword : IsWord c.name := hrooted.words _ (List.mem_map_of_mem hc)
  have hbuilt : (name ∈ c.fields.flatMap fun f =>
      (Text.usedNames (builderSignature c.name f).toList).filter (· != "self")) ↔
        name ≠ "self" ∧ (name ∈ c.references ∨ name = c.name) := by
    rw [List.mem_flatMap, hrefers]
    obtain ⟨g, hg⟩ := List.exists_mem_of_ne_nil _ hfields
    constructor
    · rintro ⟨f, hf, h⟩
      rw [mem_usedNames_builder_iff hword (hrooted.isWord_of_className? (hmem f hf)),
        htypes f hf] at h
      exact ⟨h.1, h.2.imp_left fun hclass => ⟨f, hf, hclass⟩⟩
    · rintro ⟨hne, ⟨f, hf, hclass⟩ | hown⟩
      · refine ⟨f, hf, ?_⟩
        rw [mem_usedNames_builder_iff hword (hrooted.isWord_of_className? (hmem f hf))]
        exact ⟨hne, Or.inl ((htypes f hf).mpr hclass)⟩
      · refine ⟨g, hg, ?_⟩
        rw [mem_usedNames_builder_iff hword (hrooted.isWord_of_className? (hmem g hg))]
        exact ⟨hne, Or.inr hown⟩
  rw [ClassDef.usedNames, List.mem_append, hdeclared]
  cases hbuilder : c.builder with
  | false => simp
  | true =>
    rw [if_pos rfl, hbuilt, and_iff_right rfl]
    constructor
    · rintro (h | ⟨-, h⟩)
      · exact Or.inl h
      · exact h
    · rintro (h | rfl)
      · exact Or.inl h
      · exact Or.inr ⟨hself, Or.inr rfl⟩

/-! ## Attributes that hide names -/

/-- A field has the name of another class that the fields refer to. -/
theorem hidesClass_iff {c : ClassDef} :
    Wire.hidesClass c = true ↔ ∃ f ∈ c.fields, f.attr ∈ c.references ∧ f.attr ≠ c.name := by
  rw [Wire.hidesClass, List.any_eq_true]
  constructor
  · rintro ⟨g, hg, h⟩
    split at h
    · next name hclass =>
      rw [Bool.and_eq_true, bne_iff_ne, List.any_eq_true] at h
      obtain ⟨hne, f, hf, hname⟩ := h
      obtain rfl := beq_iff_eq.mp hname
      exact ⟨f, hf, List.mem_filterMap.mpr ⟨g, hg, hclass⟩, hne⟩
    · cases h
  · rintro ⟨f, hf, hrefers, hne⟩
    obtain ⟨g, hg, hclass⟩ := List.mem_filterMap.mp hrefers
    refine ⟨g, hg, ?_⟩
    rw [hclass]
    simp only [Bool.and_eq_true, bne_iff_ne, List.any_eq_true]
    exact ⟨hne, f, hf, beq_self_eq_true _⟩

theorem className_ne_self (m : Method) (item : String) : m.className item ≠ "self" := by
  obtain ⟨middle, hname⟩ := Name.className_eq m.verb m.path item
  have hnot : Name.verbPrefix m.verb ++ (middle ++ item) ∉ ["self"] :=
    Name.verbPrefix_append_not_mem (by decide) m.verb _
  rwa [← hname, List.mem_singleton] at hnot

end Client

namespace Wire

open Client (ClassDef FieldDef Module builtins importable)

/-! ## Compiled modules -/

section

variable {text unit : String} {compiled : Compilation} {module : Module}

theorem hidesClass_of_load {loaded : Module} (h : load module = .ok loaded) :
    ∀ c ∈ module.classes, hidesClass c = false := by
  obtain ⟨⟨-, -, hclasses⟩, -⟩ := load_eq_ok_iff.mp h
  exact fun c hc => (hclasses c hc).visible

/-- The names that hide something in the body of a compiled class. -/
theorem attr_mem_usedNames_iff (hcompiled : compile text unit = .ok compiled)
    (hok : compiled.diagnostics = []) (hmodule : module ∈ compiled.modules) {c : ClassDef}
    (hc : c ∈ module.classes) {f : FieldDef} (hf : f ∈ c.fields) :
    f.attr ∉ builtins ++ importable ∧
      (f.attr ∈ c.usedNames ↔ f.attr ∈ c.references ∨ (c.builder = true ∧ f.attr = c.name)) := by
  obtain ⟨e, source, -, hmade⟩ := exists_endpoint_of_mem_modules hcompiled hmodule
  obtain ⟨m, -, i, -, className, hclass⟩ := Client.exists_item_of_mem_classes hmade hc
  obtain ⟨-, -, hrooted, -⟩ := exists_of_mem_forall₂ (modules_rooted hcompiled hok) hmodule
  have hplain := Client.attr_not_mem_plain hclass hf
  have hself : c.name ≠ "self" := by
    rw [Client.name_of_itemClass hclass]
    exact Client.className_ne_self m i.name
  exact ⟨hplain, hrooted.mem_usedNames_iff hc hself (List.ne_nil_of_mem hf) hplain⟩

/-- An attribute of a compiled class is neither built in nor imported.  It stands in the body of its
class under another meaning exactly where the fields refer to a class of its name, or the builder
methods return the class itself and it has that name.  The second is harmless and so is a reference
of a class to itself, but a module is not loaded if an attribute hides another class. -/
theorem attribute_shadows_iff (hcompiled : compile text unit = .ok compiled)
    (hok : compiled.diagnostics = []) (hmodule : module ∈ compiled.modules) :
    (∀ c ∈ module.classes, ∀ f ∈ c.fields, f.attr ∉ builtins ∧ f.attr ∉ importable ∧
      (f.attr ∈ c.usedNames ↔ f.attr ∈ c.references ∨ (c.builder = true ∧ f.attr = c.name))) ∧
    ((∃ c ∈ module.classes, ∃ f ∈ c.fields, f.attr ∈ c.usedNames ∧ f.attr ≠ c.name) →
      ∀ loaded, load module ≠ .ok loaded) := by
  constructor
  · intro c hc f hf
    obtain ⟨hplain, hiff⟩ := attr_mem_usedNames_iff hcompiled hok hmodule hc hf
    rw [List.mem_append, not_or] at hplain
    exact ⟨hplain.1, hplain.2, hiff⟩
  · rintro ⟨c, hc, f, hf, hused, hne⟩ loaded hload
    have hiff := (attr_mem_usedNames_iff hcompiled hok hmodule hc hf).2
    have hrefers := (hiff.mp hused).resolve_right fun h => hne h.2
    have hhides := hidesClass_of_load hload c hc
    rw [Client.hidesClass_iff.mpr ⟨f, hf, hrefers, hne⟩] at hhides
    cases hhides

end

/-! ## A response with a field that hides a class -/

/-- The first field has the name of the class of the second structure. -/
def maskedText : String :=
  "[pub A:\x7bGET \"/a\"=>\x7bResponse\x7bGetAN:?N,zz:?N\x7d struct N\x7bq:?String\x7d\x7d\x7d]"

def maskedField (name : String) (type : Schema.TypeDesc) (offset : Nat) : Schema.Field :=
  { name, type := .optional type, attributes := [], location := Schema.onFirstLine offset }

def maskedResponse : Schema.Struct where
  name := "Response"
  role := some .response
  fields := [maskedField "GetAN" (.reference "N") 28, maskedField "zz" (.reference "N") 37]
  attributes := []
  location := Schema.onFirstLine 19

def maskedStruct : Schema.Struct where
  name := "N"
  role := none
  fields := [maskedField "q" (.primitive "String") 53]
  attributes := []
  location := Schema.onFirstLine 44

def maskedEndpoint (items : List Schema.Item) : Schema.Endpoint where
  name := "A"
  isPublic := true
  methods := [⟨.get, ⟨"/a", [.literal "/a"]⟩, items, Schema.onFirstLine 8⟩]
  location := Schema.onFirstLine 0

def maskedSchema : Schema := ⟨"", [maskedEndpoint [.struct maskedResponse, .struct maskedStruct]]⟩

theorem masked_built : (Tree.parse maskedText "").errors = [] ∧
    (Schema.build (Tree.parse maskedText "").source).errors = [] ∧
    (Schema.build (Tree.parse maskedText "").source).schema = maskedSchema := by
  cbv

theorem masked_analyzed : (Schema.analyze maskedSchema).errors = [] := by decide +kernel

def decoded (s : Schema.Struct) : Schema.Struct := { s with capability := ⟨false, true, false⟩ }

/-- The role of the response lets both structures be decoded. -/
theorem masked_capable :
    (maskedEndpoint [.struct maskedResponse, .struct maskedStruct]).withCapabilities =
      maskedEndpoint [.struct (decoded maskedResponse), .struct (decoded maskedStruct)] := by
  cbv

def maskedItems : List Schema.Item :=
  [.struct (Schema.resolveStruct (decoded maskedResponse)),
    .struct (Schema.resolveStruct (decoded maskedStruct))]

theorem masked_resolved :
    Schema.resolveEndpoint (maskedEndpoint [.struct maskedResponse, .struct maskedStruct]) =
      maskedEndpoint maskedItems := by
  rw [Schema.resolveEndpoint, masked_capable]
  rfl

theorem classFor_masked :
    Client.classFor "A" (maskedEndpoint maskedItems).entries 0 "N" = .ok "GetAN" := by
  cbv

theorem attributeName_GetAN : Name.attributeName "GetAN" = "GetAN" :=
  attributeName_eq_self (by cbv) (by cbv)

/-- A response whose references lead to a class is given a field of the name of the class. -/
theorem exists_maskedField {className : String → Client.Gen String} {m : Schema.Method}
    {c : ClassDef} (hname : className "N" = .ok "GetAN")
    (h : Client.structClass className m (Schema.resolveStruct (decoded maskedResponse)) = .ok c) :
    ∃ f ∈ c.fields, f.attr = "GetAN" ∧ f.fieldType.className? = some "GetAN" := by
  obtain ⟨base, fields, -, hfields, rfl⟩ := Client.structClass_eq_ok_iff.mp h
  obtain ⟨f, others, hdef, -, rfl⟩ := List.forall₂_cons_left_iff.mp (mapM_eq_ok_iff.mp hfields)
  obtain ⟨wire, t, fallback, -, ht, -, rfl⟩ := Client.fieldDef_eq_ok_iff.mp hdef
  have htype : ((className "N").map Client.FieldType.model).map Client.FieldType.optional = .ok t :=
    ht
  rw [hname] at htype
  cases htype
  exact ⟨_, List.mem_cons_self, attributeName_GetAN, rfl⟩

/-- The class of the response has a field that hides the class of another structure. -/
theorem masked_compiles : ∃ compiled module c f, compile maskedText "" = .ok compiled ∧
    compiled.diagnostics = [] ∧ module ∈ compiled.modules ∧ c ∈ module.classes ∧ f ∈ c.fields ∧
    f.attr = "GetAN" ∧ f.attr ∈ c.references ∧ f.attr ≠ c.name := by
  obtain ⟨compiled, hcompiled, hok, hschema⟩ :=
    exists_compile_of_schema masked_built masked_analyzed
  have hrooted := modules_rooted hcompiled hok
  rw [hschema] at hrooted
  obtain ⟨module, others, ⟨-, hlinked⟩, -, hmodules⟩ := List.forall₂_cons_left_iff.mp hrooted
  have hmade := hlinked.made
  rw [masked_resolved] at hmade
  obtain ⟨c, rest, hclass, -, hclasses⟩ := List.forall₂_cons_left_iff.mp hmade
  obtain ⟨f, hf, hattr, hrefers⟩ := exists_maskedField classFor_masked hclass
  have hname : c.name = "GetAResponse" := by
    rw [Client.name_of_itemClass hclass]
    cbv
  refine ⟨compiled, module, c, f, hcompiled, hok, hmodules ▸ List.mem_cons_self,
    hclasses ▸ List.mem_cons_self, hf, hattr, ?_, ?_⟩
  · rw [hattr]
    exact List.mem_filterMap.mpr ⟨f, hf, hrefers⟩
  · rw [hattr, hname]
    decide

/-- The name of a class that the annotations mention is that of an attribute. -/
theorem masked_class_hidden : ∃ compiled module c f, compile maskedText "" = .ok compiled ∧
    compiled.diagnostics = [] ∧ module ∈ compiled.modules ∧ c ∈ module.classes ∧ f ∈ c.fields ∧
    f.attr = "GetAN" ∧ f.attr ∈ c.usedNames := by
  obtain ⟨compiled, module, c, f, hcompiled, hok, hmodule, hc, hf, hattr, hrefers, -⟩ :=
    masked_compiles
  have hused := (attr_mem_usedNames_iff hcompiled hok hmodule hc hf).2.mpr (Or.inl hrefers)
  exact ⟨compiled, module, c, f, hcompiled, hok, hmodule, hc, hf, hattr, hused⟩

/-- So the module that was made cannot be loaded. -/
theorem masked_module_unloadable : ∃ compiled module, compile maskedText "" = .ok compiled ∧
    compiled.diagnostics = [] ∧ module ∈ compiled.modules ∧
    (∃ c ∈ module.classes, ∃ f ∈ c.fields, f.attr ∈ c.usedNames ∧ f.attr ≠ c.name) ∧
    ∀ loaded, load module ≠ .ok loaded := by
  obtain ⟨compiled, module, c, f, hcompiled, hok, hmodule, hc, hf, -, hrefers, hne⟩ :=
    masked_compiles
  obtain ⟨hnames, hhidden⟩ := attribute_shadows_iff hcompiled hok hmodule
  have hused := (hnames c hc f hf).2.2.mpr (Or.inl hrefers)
  have hshadows : ∃ c ∈ module.classes, ∃ f ∈ c.fields, f.attr ∈ c.usedNames ∧ f.attr ≠ c.name :=
    ⟨c, hc, f, hf, hused, hne⟩
  exact ⟨compiled, module, hcompiled, hok, hmodule, hshadows, hhidden hshadows⟩

end Wire
end EndpointDsl
