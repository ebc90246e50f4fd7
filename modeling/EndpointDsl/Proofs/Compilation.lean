import Mathlib
import EndpointDsl.Compilation.Basic
import EndpointDsl.Proofs.Client.Classes
import EndpointDsl.Proofs.Client.Documentation

/-!
Compilation of any text returns, with diagnostics or with one module per endpoint.

Generation is the only step that can refuse, and it runs only on a schema that analysis is silent
about.  Such a schema is well-formed, so every endpoint of it becomes a module.
-/

namespace EndpointDsl

open Client (Gen Module ofEndpoint generate)

theorem exists_generate {s : Schema} (hwf : s.WellFormed) (hbuilt : ∀ e ∈ s.endpoints, e.Built) :
    ∃ modules, generate (Schema.analyze s).schema = .ok modules ∧
      modules.map (·.endpoint) = s.endpoints.map (·.name) := by
  show ∃ modules,
    (s.endpoints.map Schema.resolveEndpoint).mapM (ofEndpoint s.unit) = .ok modules ∧ _
  obtain ⟨modules, hmodules⟩ := exists_mapM_eq_ok
    (f := ofEndpoint s.unit) (l := s.endpoints.map Schema.resolveEndpoint) fun e' he' => by
      obtain ⟨e, he, rfl⟩ := List.mem_map.mp he'
      exact Client.exists_ofEndpoint (hwf.endpoints e he) (hbuilt e he)
  refine ⟨modules, hmodules, ?_⟩
  have hall := mapM_eq_ok_iff.mp hmodules
  rw [List.forall₂_map_left_iff] at hall
  refine (map_eq_of_forall₂ hall fun e module hmodule => ?_).symm
  exact (Client.endpoint_of_ofEndpoint hmodule).symm

namespace Compilation

theorem frontDiagnostics_eq_nil_iff {parsed : Tree.Parsed} {built : Schema.Built} :
    frontDiagnostics parsed built = [] ↔ parsed.errors = [] ∧ built.errors = [] := by
  rw [frontDiagnostics, Schema.bySource_eq_nil_iff, List.append_eq_nil_iff, List.map_eq_nil_iff,
    List.map_eq_nil_iff]

theorem diagnostics_of_analyzed {unit : String} {parsed : Tree.Parsed} {built : Schema.Built}
    {a : Schema.Analyzed} {modules : List Module} (hfront : frontDiagnostics parsed built = []) :
    (⟨unit, parsed, built, some a, modules⟩ : Compilation).diagnostics =
      a.errors.map Schema.SemanticError.diagnostic := by
  show frontDiagnostics parsed built ++ _ = _
  rw [hfront, List.nil_append]
  rfl

end Compilation

/-! ## The three ways a compilation can go -/

section

variable {text unit : String} {parsed : Tree.Parsed} {built : Schema.Built}

theorem compile_of_front (hparsed : Tree.parse text unit = parsed)
    (hbuilt : Schema.build parsed.source = built)
    (hfront : Compilation.frontDiagnostics parsed built ≠ []) :
    compile text unit = .ok ⟨unit, parsed, built, none, []⟩ := by
  subst hparsed hbuilt
  exact if_neg (mt List.isEmpty_iff.mp hfront)

theorem compile_of_errors (hparsed : Tree.parse text unit = parsed)
    (hbuilt : Schema.build parsed.source = built)
    (hfront : Compilation.frontDiagnostics parsed built = [])
    (herrors : (Schema.analyze built.schema).errors ≠ []) :
    compile text unit = .ok ⟨unit, parsed, built, some (Schema.analyze built.schema), []⟩ := by
  subst hparsed hbuilt
  refine (if_pos (List.isEmpty_iff.mpr hfront)).trans ?_
  rw [generatedModules, if_neg (mt List.isEmpty_iff.mp herrors)]
  rfl

theorem compile_of_generate {modules : List Module} (hparsed : Tree.parse text unit = parsed)
    (hbuilt : Schema.build parsed.source = built)
    (hfront : Compilation.frontDiagnostics parsed built = [])
    (herrors : (Schema.analyze built.schema).errors = [])
    (hmodules : generate (Schema.analyze built.schema).schema = .ok modules) :
    compile text unit = .ok ⟨unit, parsed, built, some (Schema.analyze built.schema), modules⟩ := by
  subst hparsed hbuilt
  refine (if_pos (List.isEmpty_iff.mpr hfront)).trans ?_
  rw [generatedModules, if_pos (List.isEmpty_iff.mpr herrors), hmodules]
  rfl

/-- Every module of a compilation comes from a well-formed endpoint. -/
theorem exists_endpoint_of_mem_modules {c : Compilation} {module : Module}
    (h : compile text unit = .ok c) (hmodule : module ∈ c.modules) :
    ∃ e : Schema.Endpoint, ∃ source, e.WellFormed ∧
      ofEndpoint source (Schema.resolveEndpoint e) = .ok module := by
  generalize hparsed : Tree.parse text unit = parsed
  generalize hbuilt : Schema.build parsed.source = built
  by_cases hfront : Compilation.frontDiagnostics parsed built = []
  · by_cases herrors : (Schema.analyze built.schema).errors = []
    · have hitems : ∀ e ∈ built.schema.endpoints, e.Built := by
        intro e he
        rw [← hbuilt] at he
        exact Schema.endpoint_built he
      have hwf := (Schema.errors_eq_nil_iff_of_built hitems).mp herrors
      obtain ⟨modules, hmodules, -⟩ := exists_generate hwf hitems
      rw [compile_of_generate hparsed hbuilt hfront herrors hmodules] at h
      cases h
      obtain ⟨e', he', hmade⟩ := exists_of_mem_mapM hmodules hmodule
      obtain ⟨e, he, rfl⟩ := List.mem_map.mp he'
      exact ⟨e, _, hwf.endpoints e he, hmade⟩
    · rw [compile_of_errors hparsed hbuilt hfront herrors] at h
      cases h
      cases hmodule
  · rw [compile_of_front hparsed hbuilt hfront] at h
    cases h
    cases hmodule

theorem unit_of_parse (text unit : String) : (Tree.parse text unit).source.unit = unit := by
  unfold Tree.parse
  split <;> rfl

/-- A source without errors whose schema is well-formed compiles without diagnostics. -/
theorem exists_compile_of_wellFormed (hparsed : (Tree.parse text unit).errors = [])
    (hbuilt : (Schema.build (Tree.parse text unit).source).errors = [])
    (hwf : (Schema.build (Tree.parse text unit).source).schema.WellFormed) :
    ∃ c, compile text unit = .ok c ∧ c.diagnostics = [] ∧
      c.built = Schema.build (Tree.parse text unit).source := by
  have hfront := Compilation.frontDiagnostics_eq_nil_iff.mpr ⟨hparsed, hbuilt⟩
  have herrors := (Schema.errors_eq_nil_iff_of_built fun e he => Schema.endpoint_built he).mpr hwf
  obtain ⟨modules, hmodules, -⟩ := exists_generate hwf fun e he => Schema.endpoint_built he
  refine ⟨_, compile_of_generate rfl rfl hfront herrors hmodules, ?_, rfl⟩
  rw [Compilation.diagnostics_of_analyzed hfront, herrors, List.map_nil]

/-- A source whose schema analysis is silent about compiles without diagnostics. -/
theorem exists_compile_of_schema {s : Schema}
    (hbuilt : (Tree.parse text unit).errors = [] ∧
      (Schema.build (Tree.parse text unit).source).errors = [] ∧
      (Schema.build (Tree.parse text unit).source).schema = s)
    (herrors : (Schema.analyze s).errors = []) :
    ∃ c, compile text unit = .ok c ∧ c.diagnostics = [] ∧ c.built.schema = s := by
  obtain ⟨hparsed, hnone, rfl⟩ := hbuilt
  have hwf := (Schema.errors_eq_nil_iff_of_built fun e he => Schema.endpoint_built he).mp herrors
  obtain ⟨c, hc, hok, hsame⟩ := exists_compile_of_wellFormed hparsed hnone hwf
  exact ⟨c, hc, hok, by rw [hsame]⟩

/-- What a compilation without diagnostics made: every endpoint is well-formed and has its
module. -/
theorem modules_of_compile {c : Compilation} (h : compile text unit = .ok c)
    (hok : c.diagnostics = []) :
    (Tree.parse text unit).errors = [] ∧
      c.built = Schema.build (Tree.parse text unit).source ∧ c.built.schema.WellFormed ∧
      List.Forall₂ (fun e module => ofEndpoint unit (Schema.resolveEndpoint e) = .ok module)
        c.built.schema.endpoints c.modules := by
  generalize hparsed : Tree.parse text unit = parsed
  generalize hbuilt : Schema.build parsed.source = built
  by_cases hfront : Compilation.frontDiagnostics parsed built = []
  · have hitems : ∀ e ∈ built.schema.endpoints, e.Built := by
      intro e he
      rw [← hbuilt] at he
      exact Schema.endpoint_built he
    by_cases herrors : (Schema.analyze built.schema).errors = []
    · have hwf := (Schema.errors_eq_nil_iff_of_built hitems).mp herrors
      obtain ⟨modules, hmodules, -⟩ := exists_generate hwf hitems
      rw [compile_of_generate hparsed hbuilt hfront herrors hmodules] at h
      cases h
      have hunit : built.schema.unit = unit := by
        rw [← hbuilt, ← hparsed]
        exact unit_of_parse text unit
      have hall := List.forall₂_map_left_iff.mp (mapM_eq_ok_iff.mp hmodules)
      exact ⟨(Compilation.frontDiagnostics_eq_nil_iff.mp hfront).1, rfl, hwf, hunit ▸ hall⟩
    · rw [compile_of_errors hparsed hbuilt hfront herrors] at h
      cases h
      rw [Compilation.diagnostics_of_analyzed hfront, List.map_eq_nil_iff] at hok
      exact absurd hok herrors
  · rw [compile_of_front hparsed hbuilt hfront] at h
    cases h
    exact absurd (List.append_eq_nil_iff.mp hok).1 hfront

/-- A compilation without diagnostics has the schema that analysis made of what was built. -/
theorem schema_of_compile {c : Compilation} (h : compile text unit = .ok c)
    (hok : c.diagnostics = []) : c.schema = (Schema.analyze c.built.schema).schema := by
  simp only [compile] at h
  split at h
  · obtain ⟨modules, -, rfl⟩ := map_eq_ok_iff.mp h
    rfl
  · next hfront =>
    cases h
    exact absurd (List.isEmpty_iff.mpr (List.append_eq_nil_iff.mp hok).1) hfront

/-- The module of an endpoint with one item has one class. -/
theorem exists_class_of_entry {e : Schema.Endpoint} {x : Schema.Entry} {module : Module}
    (h : ofEndpoint unit e = .ok module) (hentries : e.entries = [x]) :
    ∃ cls className, module.classes = [cls] ∧
      Client.itemClass className x.method x.item = .ok cls := by
  obtain ⟨parts, hparts, h⟩ := bind_eq_ok_iff.mp h
  cases h
  have hclasses := Client.classes_partsFrom hparts
  rw [← Schema.Endpoint.entries, hentries] at hclasses
  obtain ⟨cls, rest, hcls, hrest, heq⟩ := List.forall₂_cons_left_iff.mp hclasses
  cases hrest
  exact ⟨cls, _, heq, hcls⟩

/-- A source with one well-formed endpoint compiles to the module of that endpoint. -/
theorem exists_sole_module {e : Schema.Endpoint}
    (hfront : (Tree.parse text unit).errors = [] ∧
      (Schema.build (Tree.parse text unit).source).errors = [] ∧
      (Schema.build (Tree.parse text unit).source).schema.endpoints = [e])
    (hwf : e.WellFormed) :
    ∃ c module, compile text unit = .ok c ∧ c.diagnostics = [] ∧ c.built.schema.endpoints = [e] ∧
      c.modules = [module] ∧ ofEndpoint unit (Schema.resolveEndpoint e) = .ok module := by
  obtain ⟨hparsed, hbuilt, hendpoints⟩ := hfront
  have hschema : (Schema.build (Tree.parse text unit).source).schema.WellFormed := by
    constructor
    · rw [hendpoints]; exact List.nodup_singleton _
    · rw [hendpoints]; exact List.nodup_singleton _
    · rw [hendpoints]; exact List.forall_mem_singleton.mpr hwf
  obtain ⟨c, hc, hok, hsame⟩ := exists_compile_of_wellFormed hparsed hbuilt hschema
  obtain ⟨-, -, -, hmodules⟩ := modules_of_compile hc hok
  rw [hsame, hendpoints] at hmodules
  obtain ⟨module, rest, hmade, hrest, hall⟩ := List.forall₂_cons_left_iff.mp hmodules
  cases hrest
  exact ⟨c, module, hc, hok, hsame ▸ hendpoints, hall, hmade⟩

theorem lawful_of_compile {c : Compilation} {module : Module} {cls : Client.ClassDef}
    (h : compile text unit = .ok c) (hmodule : module ∈ c.modules) (hcls : cls ∈ module.classes) :
    cls.Lawful := by
  obtain ⟨e, source, hwf, hmade⟩ := exists_endpoint_of_mem_modules h hmodule
  exact Client.lawful_of_ofEndpoint hwf hmade hcls

end

/-- Every text compiles to diagnostics and no module, or to no diagnostics and the modules of its
endpoints in order; and every documentation text of a module can be written out. -/
theorem compile_returns (text unit : String) :
    ∃ c, compile text unit = .ok c ∧
      ((c.diagnostics ≠ [] ∧ c.modules = []) ∨
        (c.diagnostics = [] ∧
          c.modules.map (·.endpoint) = (Tree.parse text unit).source.endpoints.map (·.name))) ∧
      ∀ module ∈ c.modules, ∀ doc ∈ module.docs, ∀ indent,
        (Client.Docs.literal? indent doc).isSome = true := by
  generalize hparsed : Tree.parse text unit = parsed
  generalize hbuilt : Schema.build parsed.source = built
  have hitems : ∀ e ∈ built.schema.endpoints, e.Built := by
    intro e he
    rw [← hbuilt] at he
    exact Schema.endpoint_built he
  by_cases hfront : Compilation.frontDiagnostics parsed built = []
  · by_cases herrors : (Schema.analyze built.schema).errors = []
    · have hwf := (Schema.errors_eq_nil_iff_of_built hitems).mp herrors
      obtain ⟨modules, hmodules, hnames⟩ := exists_generate hwf hitems
      refine ⟨_, compile_of_generate hparsed hbuilt hfront herrors hmodules, Or.inr ⟨?_, ?_⟩, ?_⟩
      · rw [Compilation.diagnostics_of_analyzed hfront, herrors, List.map_nil]
      · show modules.map (·.endpoint) = _
        rw [hnames, ← hbuilt]
        show (parsed.source.endpoints.map Schema.buildEndpoint).map (·.name) = _
        rw [List.map_map]
        rfl
      · intro module hmodule doc hdoc indent
        obtain ⟨e, -, he⟩ := exists_of_mem_mapM hmodules hmodule
        exact Client.literal?_isSome_of_mem_docs he hdoc indent
    · refine ⟨_, compile_of_errors hparsed hbuilt hfront herrors, Or.inl ⟨?_, rfl⟩,
        fun _ h => nomatch h⟩
      rw [Compilation.diagnostics_of_analyzed hfront]
      exact mt List.map_eq_nil_iff.mp herrors
  · refine ⟨_, compile_of_front hparsed hbuilt hfront, Or.inl ⟨?_, rfl⟩, fun _ h => nomatch h⟩
    exact fun hempty => hfront (List.append_eq_nil_iff.mp hempty).1

/-! ## A text with one item -/

namespace Schema

def onFirstLine (offset : Nat) : Location := ⟨"", 1, offset + 1, offset⟩

def soleMethod (i : Item) : Method :=
  { verb := .put, path := ⟨"/t", [.literal "/t"]⟩, items := [i], location := onFirstLine 8 }

def soleEndpoint (i : Item) : Endpoint :=
  { name := "A", isPublic := true, methods := [soleMethod i], location := onFirstLine 0 }

/-- A structure whose fields have no attributes needs no more than different names. -/
theorem wellFormed_of_plain {s : Struct} (hattributes : TypeAttributes s.attributes)
    (hplain : ∀ f ∈ s.fields, f.attributes = []) (hnames : (s.fields.map (·.name)).Nodup)
    (hwires : s.wireNames.Nodup) (hattrs : s.attributeNames.Nodup) : s.WellFormed where
  attributes := hattributes
  fieldNames := hnames
  members f hf := by
    rw [hplain f hf]
    exact ⟨nofun, Nat.zero_le 1, nofun⟩
  defaults f hf := by
    constructor
    · rw [hplain f hf]
      exact Nat.zero_le 1
    · rintro ⟨a, ha, -⟩
      rw [hplain f hf] at ha
      cases ha
  errorOnce := by
    have hnone : s.fields.countP Field.signalsError = 0 := by
      rw [List.countP_eq_zero]
      intro f hf
      rw [Field.signalsError, hplain f hf]
      exact Bool.false_ne_true
    rw [hnone]
    exact Nat.zero_le 1
  errorDecoded f hf hsignals := by
    rw [Field.signalsError, hplain f hf] at hsignals
    cases hsignals
  wires := hwires
  attrs := hattrs

/-- An endpoint with one method and one item needs little: the item refers to no other, and it
covers the parameters of the path. -/
theorem wellFormed_of_sole_item {e : Endpoint} {m : Method} {i j : Item}
    (hmethods : e.methods = [m]) (hitem : m.items = [i]) (hreferences : i.references = [])
    (hparameters : m.path.parameters.Nodup)
    (hcovered : ∀ p ∈ m.path.parameters,
      ∃ f scalar, m.pathFields.filter (·.name == p) = [f] ∧ f.type = .primitive scalar)
    (hcapable : e.withCapabilities.items = [j]) (hwf : j.WellFormed) : e.WellFormed where
  routes := by
    rw [hmethods]
    exact List.nodup_singleton _
  identifiers := by
    rw [hmethods]
    exact List.nodup_singleton _
  classes := by
    rw [hmethods, List.flatMap_singleton, Method.classNames, hitem]
    exact List.nodup_singleton _
  methods := by
    intro x hx
    rw [hmethods] at hx
    obtain rfl := List.mem_singleton.mp hx
    have hroles : x.roles = i.role?.toList := by
      rw [Method.roles, hitem, List.filterMap_cons]
      cases i.role? <;> rfl
    refine ⟨?_, ?_, ?_, fun y hy r hr => ?_, hparameters, hcovered⟩
    · rw [hitem]
      exact List.nodup_singleton _
    · rw [hroles]
      cases i.role? with
      | none => exact List.nodup_nil
      | some role => exact List.nodup_singleton role
    · -- No other role stands beside that of the item.
      rw [hroles]
      intro hboth
      rw [Option.mem_toList] at hboth
      rw [hboth]
      decide
    · rw [hitem] at hy
      obtain rfl := List.mem_singleton.mp hy
      rw [hreferences] at hr
      cases hr
  items := by
    rw [hcapable]
    exact List.forall_mem_singleton.mpr hwf

/-- So is an endpoint whose one method has no items and a path without parameters. -/
theorem wellFormed_of_bare_method {e : Endpoint} {m : Method} (hmethods : e.methods = [m])
    (hitems : m.items = []) (hparameters : m.path.parameters = []) : e.WellFormed where
  routes := by
    rw [hmethods]
    exact List.nodup_singleton _
  identifiers := by
    rw [hmethods]
    exact List.nodup_singleton _
  classes := by
    rw [hmethods, List.flatMap_singleton, Method.classNames, hitems]
    exact List.nodup_nil
  methods := by
    intro x hx
    rw [hmethods] at hx
    obtain rfl := List.mem_singleton.mp hx
    have hroles : x.roles = [] := by rw [Method.roles, hitems, List.filterMap_nil]
    refine ⟨?_, ?_, ?_, ?_, ?_, ?_⟩
    · rw [hitems]
      exact List.nodup_nil
    · rw [hroles]
      exact List.nodup_nil
    · rw [hroles]
      exact fun hmem => absurd hmem List.not_mem_nil
    · rw [hitems]
      exact List.forall_mem_nil _
    · rw [hparameters]
      exact List.nodup_nil
    · rw [hparameters]
      exact List.forall_mem_nil _
  items := by
    have hcapable : e.withCapabilities.items = [] := by
      rw [Endpoint.withCapabilities, Endpoint.items, hmethods]
      simp only [assignMethods, hitems, takeCapabilities, List.flatMap_cons, List.flatMap_nil,
        List.append_nil]
    rw [hcapable]
    exact List.forall_mem_nil _

theorem soleEndpoint_wellFormed {i j : Item} (hreferences : i.references = [])
    (hcapable : (soleEndpoint i).withCapabilities = soleEndpoint j) (hwf : j.WellFormed) :
    (soleEndpoint i).WellFormed := by
  refine wellFormed_of_sole_item rfl rfl hreferences List.nodup_nil nofun ?_ hwf
  rw [hcapable]
  rfl

end Schema

section

open Schema

variable {text : String} {i j : Item}

theorem exists_sole_item
    (hfront : (Tree.parse text "").errors = [] ∧ (build (Tree.parse text "").source).errors = [] ∧
      (build (Tree.parse text "").source).schema.endpoints = [soleEndpoint i])
    (hreferences : i.references = [])
    (hcapable : (soleEndpoint i).withCapabilities = soleEndpoint j) (hwf : j.WellFormed) :
    ∃ compiled module cls className, compile text "" = .ok compiled ∧ compiled.diagnostics = [] ∧
      soleEndpoint (resolveItem j) ∈ compiled.schema.endpoints ∧ compiled.modules = [module] ∧
      module.classes = [cls] ∧
      Client.itemClass className (soleMethod (resolveItem j)) (resolveItem j) = .ok cls := by
  obtain ⟨compiled, module, hcompiled, hok, hendpoints, hmodules, hmade⟩ :=
    exists_sole_module hfront (soleEndpoint_wellFormed hreferences hcapable hwf)
  have hresolved : resolveEndpoint (soleEndpoint i) = soleEndpoint (resolveItem j) := by
    rw [resolveEndpoint, hcapable]
    rfl
  rw [hresolved] at hmade
  obtain ⟨cls, className, hclasses, hclass⟩ := exists_class_of_entry hmade rfl
  refine ⟨compiled, module, cls, className, hcompiled, hok, ?_, hmodules, hclasses, hclass⟩
  rw [schema_of_compile hcompiled hok]
  show _ ∈ compiled.built.schema.endpoints.map resolveEndpoint
  rw [hendpoints, List.map_singleton, hresolved]
  exact List.mem_singleton_self _

theorem exists_sole_class
    (hfront : (Tree.parse text "").errors = [] ∧ (build (Tree.parse text "").source).errors = [] ∧
      (build (Tree.parse text "").source).schema.endpoints = [soleEndpoint i])
    (hreferences : i.references = [])
    (hcapable : (soleEndpoint i).withCapabilities = soleEndpoint j) (hwf : j.WellFormed) :
    ∃ compiled module cls className, compile text "" = .ok compiled ∧ module ∈ compiled.modules ∧
      module.classes = [cls] ∧
      Client.itemClass className (soleMethod (resolveItem j)) (resolveItem j) = .ok cls := by
  obtain ⟨compiled, module, cls, className, hcompiled, -, -, hmodules, hclasses, hclass⟩ :=
    exists_sole_item hfront hreferences hcapable hwf
  exact ⟨compiled, module, cls, className, hcompiled,
    hmodules ▸ List.mem_singleton_self module, hclasses, hclass⟩

end

/-! ## A text with two endpoints -/

namespace Schema

/-- The request of one method refers to a structure of another, which refers to itself. -/
def linkedText : String :=
  "[A:\x7bGET\"/\x7bif\x7d\"=>\x7b[builder]Query\x7bif:u8\x7dstruct T\x7bt:?T,d:?Date\x7d\x7d" ++
    "PUT\"/\"=>\x7bRequest\x7bt:T\x7d\x7d\x7d][pub B:\x7b\x7d]"

def linkedField (name : String) (type : TypeDesc) (offset : Nat) : Field :=
  { name, type, attributes := [], location := onFirstLine offset }

def linkedQuery : Struct where
  name := "Query"
  role := some .query
  fields := [linkedField "if" (.primitive "u8") 32]
  attributes := [⟨.builder, .type, onFirstLine 18⟩]
  location := onFirstLine 26

def linkedStruct : Struct where
  name := "T"
  role := none
  fields := [linkedField "t" (.optional (.reference "T")) 47,
    linkedField "d" (.optional (.primitive "Date")) 52]
  attributes := []
  location := onFirstLine 38

def linkedRequest : Struct where
  name := "Request"
  role := some .request
  fields := [linkedField "t" (.reference "T") 78]
  attributes := []
  location := onFirstLine 70

def linkedEndpoint : Endpoint where
  name := "A"
  isPublic := false
  methods := [
    { verb := .get, path := ⟨"/\x7bif\x7d", [.literal "/", .param "if"]⟩,
      items := [.struct linkedQuery, .struct linkedStruct], location := onFirstLine 4 },
    { verb := .put, path := ⟨"/", [.literal "/"]⟩, items := [.struct linkedRequest],
      location := onFirstLine 61 }]
  location := onFirstLine 0

def linkedSchema : Schema :=
  ⟨"", [linkedEndpoint, ⟨"B", true, [], onFirstLine 85⟩]⟩

theorem linked_built : (Tree.parse linkedText "").errors = [] ∧
    (build (Tree.parse linkedText "").source).errors = [] ∧
    (build (Tree.parse linkedText "").source).schema = linkedSchema := by
  cbv

theorem linked_analyzed : (analyze linkedSchema).errors = [] := by decide +kernel

end Schema

theorem exists_linked_compilation : ∃ c, compile Schema.linkedText "" = .ok c ∧
    c.diagnostics = [] ∧ c.built.schema = Schema.linkedSchema :=
  exists_compile_of_schema Schema.linked_built Schema.linked_analyzed

end EndpointDsl
