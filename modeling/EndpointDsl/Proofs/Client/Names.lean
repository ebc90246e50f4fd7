import EndpointDsl.Proofs.Client.Declarations
import EndpointDsl.Proofs.Client.Texts
import EndpointDsl.Proofs.Compilation.Places
import EndpointDsl.Proofs.Name.Spelling

/-!
The names that a generated module introduces.

Everything that was read is named by an identifier, and so is every path parameter, since a field
of its name fills it.  The three kinds of names at module level never meet: a class starts with a
verb in a capital, a function starts with a small letter and holds an underscore, and no import
does either.
-/

namespace EndpointDsl
namespace Schema

/-- The parameters and the declared names of a method are made of word characters. -/
structure Method.Spelled (m : Method) : Prop where
  parameters : ∀ p ∈ m.path.parameters, Name.WordChars p
  names : ∀ i ∈ m.items, ∀ name ∈ i.names, Name.WordChars name

theorem Item.name_mem_names (i : Item) : i.name ∈ i.names := by
  cases i <;> exact List.mem_cons_self

theorem Item.Resolves.names_eq {i i' : Item} (h : i.Resolves i') : i'.names = i.names := by
  obtain ⟨c, -, hwf, rfl⟩ := h
  cases i with
  | struct s =>
    show s.name :: (resolveStruct { s with capability := c }).fields.map (·.name) = _
    rw [resolveStruct_eq hwf, List.map_map]
    rfl
  | enum e =>
    show e.name :: (resolveEnum { e with capability := c }).variants.map (·.name) = _
    rw [resolveEnum_eq hwf, List.map_map]
    rfl

theorem Method.Spelled.resolves {m m' : Method} (h : m.Spelled) (hm : m.Resolves m') :
    m'.Spelled := by
  obtain ⟨items, hitems, rfl⟩ := hm
  refine ⟨h.parameters, fun i' hi' name hname => ?_⟩
  obtain ⟨i, hi, hresolves⟩ := exists_of_mem_forall₂ hitems hi'
  exact h.names i hi name (hresolves.names_eq ▸ hname)

section

variable {text unit : String} {e : Endpoint} {m : Method}

/-- A parameter is named like the field that fills it, so no newline follows its name. -/
theorem isIdent_of_mem_parameters (h : (Tree.parse text unit).errors = [])
    (he : e ∈ (build (Tree.parse text unit).source).schema.endpoints) (hm : m ∈ e.methods)
    (hwf : m.WellFormed e) {p : String} (hp : p ∈ m.path.parameters) :
    isIdent p.toList = true := by
  obtain ⟨role, -, s, f, scalar, hs, hf, rfl, -⟩ := exists_covers hwf hp
  exact isIdent_of_build h he hm (mem_items_of_findRole? hs) hf

theorem spelled_of_build (h : (Tree.parse text unit).errors = [])
    (he : e ∈ (build (Tree.parse text unit).source).schema.endpoints) (hm : m ∈ e.methods)
    (hwf : m.WellFormed e) : m.Spelled where
  parameters := fun _ hp => Name.wordChars_of_isIdent (isIdent_of_mem_parameters h he hm hwf hp)
  names := fun _ hi _ hname => Name.wordChars_of_isIdent (isIdent_of_mem_names h he hm hi hname)

end

end Schema

namespace Client

open Schema (Endpoint Entry Item Method)

/-- The names that import lines of generated modules bind. -/
def importable : List String :=
  ["annotations", "runtime", "Field", "NonNegativeInt", "Optional", "date", "datetime"]

/-- The names of the classes and functions of a module. -/
def Module.declared (module : Module) : List String :=
  module.classes.map (·.name) ++ module.functions.map (·.name)

/-- The names of a module made for an endpoint are legal, and none hides another. -/
structure Module.WellNamed (e : Endpoint) (module : Module) : Prop where
  /-- A class is named after its method and its item, in the order of the items. -/
  classes : module.classes.map (·.name) = e.methods.flatMap (·.classNames)
  functions : ∀ f ∈ module.functions, ∃ m ∈ e.methods,
    f.name = f.body.purpose.functionName m.identifier
  imports : ∀ i ∈ module.imports, i.name ∈ importable
  declared : ∀ name ∈ module.declared, Name.IsLegal name
  attributes : ∀ c ∈ module.classes, ∀ f ∈ c.fields,
    Name.IsLegal f.attr ∧ f.attr.toList.head? ≠ some '_'
  builders : ∀ c ∈ module.classes, ∀ f ∈ c.fields, Name.IsLegal ("with_" ++ f.attr)
  apart : (module.declared ++ importable).Nodup

/-! ## Functions -/

section

variable {m : Method}

/-- Every function name holds an underscore and starts as the name of a method or with a letter. -/
theorem functionName_eq (verb : Verb) (path : PathTemplate) (p : Purpose) :
    ∃ c rest, (p.functionName (Name.methodIdentifier verb path)).toList = c :: rest ∧
      c.isLower = true ∧ '_' ∈ rest := by
  obtain ⟨tail, htail⟩ := Name.methodIdentifier_eq verb path
  obtain ⟨c, rest, hverb⟩ : ∃ c rest, verb.lowerName.toList = c :: rest := by
    cases verb <;> exact ⟨_, _, rfl⟩
  cases p with
  | uri =>
    refine ⟨c, rest ++ '_' :: tail ++ "_uri".toList, ?_, ?_, by simp⟩
    · rw [Purpose.functionName, String.toList_append, htail, hverb]
      rfl
    · exact Name.lowerName_chars verb c (hverb ▸ List.mem_cons_self)
  | request =>
    rw [Purpose.functionName, String.append_assoc, String.toList_append]
    exact ⟨'b', _, rfl, rfl, by simp⟩
  | response =>
    rw [Purpose.functionName, String.append_assoc, String.toList_append]
    exact ⟨'p', _, rfl, rfl, by simp⟩
  | headers =>
    rw [Purpose.functionName, String.append_assoc, String.toList_append]
    exact ⟨'p', _, rfl, rfl, by simp⟩

theorem isLegal_functionName (h : m.Spelled) (p : Purpose) :
    Name.IsLegal (p.functionName m.identifier) := by
  obtain ⟨c, rest, hlist, hlower, hunderscore⟩ := functionName_eq m.verb m.path p
  have hidentifier : Name.WordChars m.identifier :=
    Name.wordChars_methodIdentifier m.verb h.parameters
  have hword : Name.WordChars (p.functionName m.identifier) := by
    cases p <;> simp only [Purpose.functionName, Name.wordChars_append, hidentifier] <;> decide
  constructor
  · refine Name.isIdent_of_wordChars hword hlist ?_
    rw [isIdentStart, Char.isAlpha, hlower, Bool.or_true, Bool.true_or]
  · refine Name.not_mem_keywords ?_
    show '_' ∈ (p.functionName (Name.methodIdentifier m.verb m.path)).toList
    rw [hlist]
    exact List.mem_cons_of_mem c hunderscore

theorem functionName_not_mem_importable (m : Method) (p : Purpose) :
    p.functionName m.identifier ∉ importable := by
  have hplain : ∀ name ∈ importable, '_' ∉ name.toList := by decide
  obtain ⟨c, rest, hlist, -, hunderscore⟩ := functionName_eq m.verb m.path p
  intro hmem
  refine hplain _ hmem ?_
  show '_' ∈ (p.functionName (Name.methodIdentifier m.verb m.path)).toList
  rw [hlist]
  exact List.mem_cons_of_mem c hunderscore

theorem functionName_ne_className (m n : Method) (p : Purpose) (item : String) :
    p.functionName m.identifier ≠ n.className item := by
  obtain ⟨c, rest, hlist, hlower, -⟩ := functionName_eq m.verb m.path p
  intro heq
  have hhead : (n.className item).toList.head? = some c := by
    rw [← heq]
    show (p.functionName (Name.methodIdentifier m.verb m.path)).toList.head? = some c
    rw [hlist]
    rfl
  have hupper : c.isUpper = true := Name.isUpper_of_head?_className hhead
  exact Char.not_isUpper_of_isLower hlower hupper

/-- Within a method the purposes differ, and between methods the identifiers do. -/
theorem nodup_functionNames {endpoint : String} {entries : List Entry} {index : Nat}
    {methods : List Method} {parts : List ClassDef × List FunctionDef}
    (hidentifiers : (methods.map (·.identifier)).Nodup)
    (h : partsFrom endpoint entries index methods = .ok parts) :
    (parts.2.map (·.name)).Nodup := by
  induction methods generalizing index parts with
  | nil =>
    cases h
    exact List.nodup_nil
  | cons m rest ih =>
    obtain ⟨own, others, hown, hothers, rfl⟩ := partsFrom_cons_eq_ok h
    rw [List.map_cons, List.nodup_cons] at hidentifiers
    have hfunctions := (methodParts_eq_ok_iff.mp hown).2
    rw [List.map_append]
    refine List.nodup_append'.mpr ⟨?_, ih hidentifiers.2 hothers, ?_⟩
    · have hnames : own.2.map (·.name) =
          (own.2.map (·.body.purpose)).map (·.functionName m.identifier) := by
        rw [List.map_map]
        exact List.map_congr_left fun f hf => name_of_mem_methodFunctions hfunctions hf
      rw [hnames]
      exact (nodup_purposes hfunctions).map fun p q hpq => (functionName_inj hpq).1
    · intro name hhere hthere
      obtain ⟨f, hf, rfl⟩ := List.mem_map.mp hhere
      obtain ⟨g, hg, hname⟩ := List.mem_map.mp hthere
      obtain ⟨n, hn, functions, hmade, hg⟩ := exists_of_mem_functions hothers hg
      rw [name_of_mem_methodFunctions hfunctions hf, name_of_mem_methodFunctions hmade hg] at hname
      exact hidentifiers.1 (List.mem_map.mpr ⟨n, hn, (functionName_inj hname).2⟩)

end

/-! ## Classes and their members -/

section

variable {className : String → Gen String} {m : Method} {i : Item} {c : ClassDef}

theorem isLegal_className (h : m.Spelled) (hi : i ∈ m.items) :
    Name.IsLegal (m.className i.name) :=
  Name.isLegal_className m.verb h.parameters (h.names i hi _ i.name_mem_names)

theorem className_not_mem_importable (m : Method) (item : String) :
    m.className item ∉ importable := by
  obtain ⟨middle, hname⟩ := Name.className_eq m.verb m.path item
  rw [Schema.Method.className, hname]
  exact Name.verbPrefix_append_not_mem (by decide) m.verb _

/-- The members of a class are named after the members of its item. -/
theorem exists_name_of_mem_fields (h : itemClass className m i = .ok c) {f : FieldDef}
    (hf : f ∈ c.fields) : ∃ name ∈ i.names, f.attr = Name.attributeName name := by
  cases i with
  | struct s =>
    obtain ⟨base, fields, -, hfields, rfl⟩ := structClass_eq_ok_iff.mp h
    obtain ⟨field, hmem, hdef⟩ := exists_of_mem_mapM hfields hf
    obtain ⟨wire, t, fallback, -, -, -, rfl⟩ := fieldDef_eq_ok_iff.mp hdef
    exact ⟨field.name, List.mem_cons_of_mem _ (List.mem_map.mpr ⟨field, hmem, rfl⟩), rfl⟩
  | enum e =>
    obtain ⟨fields, -, -, hfields, rfl⟩ := enumClass_eq_ok_iff.mp h
    obtain ⟨variant, hmem, hdef⟩ := exists_of_mem_mapM hfields hf
    obtain ⟨wire, t, -, -, rfl⟩ := variantDef_eq_ok_iff.mp hdef
    exact ⟨variant.name, List.mem_cons_of_mem _ (List.mem_map.mpr ⟨variant, hmem, rfl⟩), rfl⟩

theorem isLegal_attr (h : m.Spelled) (hi : i ∈ m.items) (hclass : itemClass className m i = .ok c)
    {f : FieldDef} (hf : f ∈ c.fields) :
    Name.IsLegal f.attr ∧ f.attr.toList.head? ≠ some '_' := by
  obtain ⟨name, hname, hattr⟩ := exists_name_of_mem_fields hclass hf
  obtain ⟨hlegal, d, rest, hlist, halpha⟩ := Name.attributeName_spec (h.names i hi name hname)
  rw [hattr]
  refine ⟨hlegal, ?_⟩
  rw [hlist, List.head?_cons]
  rintro ⟨⟩
  cases halpha

theorem isLegal_builder {attr : String} (h : Name.IsLegal attr) :
    Name.IsLegal ("with_" ++ attr) := by
  have hword : Name.WordChars ("with_" ++ attr) :=
    Name.wordChars_append.mpr ⟨by decide, Name.wordChars_of_isIdent h.ident⟩
  have hlist : ("with_" ++ attr).toList = 'w' :: ("ith_".toList ++ attr.toList) := by
    rw [String.toList_append]
    rfl
  refine ⟨Name.isIdent_of_wordChars hword hlist rfl, Name.not_mem_keywords ?_⟩
  rw [String.toList_append]
  exact List.mem_append_left _ (by decide)

theorem importable_of_mem_imports {module : Module} {i : Import} (h : i ∈ module.imports) :
    i.name ∈ importable := by
  have hall : ∀ i ∈ Layout.knownImports, i.name ∈ importable := by decide
  exact hall i (Layout.mem_knownImports h)

end

/-! ## Modules -/

section

variable {unit : String} {e : Endpoint} {module : Module}

theorem exists_item_of_mem_classes (h : ofEndpoint unit e = .ok module) {c : ClassDef}
    (hc : c ∈ module.classes) :
    ∃ m ∈ e.methods, ∃ i ∈ m.items, ∃ className, itemClass className m i = .ok c := by
  obtain ⟨parts, hparts, h⟩ := bind_eq_ok_iff.mp h
  cases h
  obtain ⟨x, hx, hmade⟩ := exists_of_mem_forall₂ (classes_partsFrom hparts) hc
  obtain ⟨hmethod, hitem⟩ := mem_of_mem_entriesFrom hx
  exact ⟨x.method, hmethod, x.item, hitem, _, hmade⟩

theorem exists_method_of_mem_functions (h : ofEndpoint unit e = .ok module) {f : FunctionDef}
    (hf : f ∈ module.functions) :
    ∃ m ∈ e.methods, f.name = f.body.purpose.functionName m.identifier := by
  obtain ⟨parts, hparts, h⟩ := bind_eq_ok_iff.mp h
  cases h
  obtain ⟨m, hm, functions, hmade, hmem⟩ := exists_of_mem_functions hparts hf
  exact ⟨m, hm, name_of_mem_methodFunctions hmade hmem⟩

theorem isLegal_of_mem_declared (hspelled : ∀ m ∈ e.methods, m.Spelled)
    (h : ofEndpoint unit e = .ok module) {name : String} (hname : name ∈ module.declared) :
    Name.IsLegal name := by
  rcases List.mem_append.mp hname with hname | hname
  · obtain ⟨c, hc, rfl⟩ := List.mem_map.mp hname
    obtain ⟨m, hm, i, hi, className, hmade⟩ := exists_item_of_mem_classes h hc
    rw [name_of_itemClass hmade]
    exact isLegal_className (hspelled m hm) hi
  · obtain ⟨f, hf, rfl⟩ := List.mem_map.mp hname
    obtain ⟨m, hm, hname⟩ := exists_method_of_mem_functions h hf
    rw [hname]
    exact isLegal_functionName (hspelled m hm) _

/-- Names of one kind differ by what the endpoint's rules say, and names of two kinds always. -/
theorem nodup_declared (hclasses : (module.classes.map (·.name)).Nodup)
    (hidentifiers : (e.methods.map (·.identifier)).Nodup) (h : ofEndpoint unit e = .ok module) :
    (module.declared ++ importable).Nodup := by
  have hfunctions : (module.functions.map (·.name)).Nodup := by
    obtain ⟨parts, hparts, hmade⟩ := bind_eq_ok_iff.mp h
    cases hmade
    exact nodup_functionNames hidentifiers hparts
  refine List.nodup_append'.mpr ⟨List.nodup_append'.mpr ⟨hclasses, hfunctions, ?_⟩, by decide, ?_⟩
  · intro name hleft hright
    obtain ⟨c, hc, rfl⟩ := List.mem_map.mp hleft
    obtain ⟨f, hf, heq⟩ := List.mem_map.mp hright
    obtain ⟨m, -, i, -, className, hmade⟩ := exists_item_of_mem_classes h hc
    obtain ⟨n, -, hname⟩ := exists_method_of_mem_functions h hf
    rw [hname, name_of_itemClass hmade] at heq
    exact functionName_ne_className n m _ _ heq
  · intro name hleft hright
    rcases List.mem_append.mp hleft with hmem | hmem
    · obtain ⟨c, hc, rfl⟩ := List.mem_map.mp hmem
      obtain ⟨m, -, i, -, className, hmade⟩ := exists_item_of_mem_classes h hc
      rw [name_of_itemClass hmade] at hright
      exact className_not_mem_importable m _ hright
    · obtain ⟨f, hf, rfl⟩ := List.mem_map.mp hmem
      obtain ⟨n, -, hname⟩ := exists_method_of_mem_functions h hf
      rw [hname] at hright
      exact functionName_not_mem_importable n _ hright

/-- The names of the module of a well-formed endpoint whose names were read. -/
theorem wellNamed_of_ofEndpoint (hwf : e.WellFormed) (hspelled : ∀ m ∈ e.methods, m.Spelled)
    (h : ofEndpoint unit (Schema.resolveEndpoint e) = .ok module) : module.WellNamed e := by
  have hresolves := Schema.resolves_resolveEndpoint hwf
  have hspelled' : ∀ m ∈ (Schema.resolveEndpoint e).methods, m.Spelled := by
    intro m' hm'
    obtain ⟨m, hm, hmethod⟩ := exists_of_mem_forall₂ hresolves hm'
    exact (hspelled m hm).resolves hmethod
  have hclassNames := classNames_of_ofEndpoint hwf h
  have hattrs : ∀ c ∈ module.classes, ∀ f ∈ c.fields,
      Name.IsLegal f.attr ∧ f.attr.toList.head? ≠ some '_' := by
    intro c hc f hf
    obtain ⟨m, hm, i, hi, className, hmade⟩ := exists_item_of_mem_classes h hc
    exact isLegal_attr (hspelled' m hm) hi hmade hf
  refine ⟨hclassNames, fun f hf => ?_, fun i => importable_of_mem_imports,
    fun name => isLegal_of_mem_declared hspelled' h, hattrs,
    fun c hc f hf => isLegal_builder (hattrs c hc f hf).1,
    nodup_declared (hclassNames ▸ hwf.classes)
      (identifiers_resolveEndpoint hwf ▸ hwf.identifiers) h⟩
  obtain ⟨m', hm', hname⟩ := exists_method_of_mem_functions h hf
  obtain ⟨m, hm, items, -, rfl⟩ := exists_of_mem_forall₂ hresolves hm'
  exact ⟨m, hm, hname⟩

end

end Client

/-- In every module of a source that compiles the names are legal and none hides another. -/
theorem modules_wellNamed {text unit : String} {c : Compilation} (h : compile text unit = .ok c)
    (hok : c.diagnostics = []) :
    List.Forall₂ (fun e module => Client.Module.WellNamed e module) c.built.schema.endpoints
      c.modules := by
  obtain ⟨hparsed, hbuilt, hschema, hmodules⟩ := modules_of_compile h hok
  refine forall₂_imp_of_mem hmodules fun e module he _ hmade => ?_
  have hwf := hschema.endpoints e he
  rw [hbuilt] at he
  refine Client.wellNamed_of_ofEndpoint hwf (fun m hm => ?_) hmade
  exact Schema.spelled_of_build hparsed he hm (hwf.methods m hm)

/-- A keyword fills a path, and a class of one method is used by another. -/
theorem linked_modules_wellNamed : ∃ c, compile Schema.linkedText "" = .ok c ∧
    c.diagnostics = [] ∧
    List.Forall₂ (fun e module => Client.Module.WellNamed e module) Schema.linkedSchema.endpoints
      c.modules := by
  obtain ⟨c, hc, hok, hschema⟩ := exists_linked_compilation
  have hnamed := modules_wellNamed hc hok
  rw [hschema] at hnamed
  exact ⟨c, hc, hok, hnamed⟩

end EndpointDsl
