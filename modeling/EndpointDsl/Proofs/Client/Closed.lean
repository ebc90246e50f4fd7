import EndpointDsl.Proofs.Client.Mentions

/-!
Generated modules are closed under names.

A name in use is built in, imported or the name of one of the module's own classes, and no import
goes unused.  Classes in types come from references, which lead to items of the endpoint, and every
item has a class under a name of its own.
-/

namespace EndpointDsl
namespace Client

open Schema (Endpoint Entry Item Method Struct TypeDesc)
open Text (usedNames endsUse_nil)

/-! ## Classes -/

section

variable {className : String → Gen String} {t : FieldType}

/-- A class in a type stands for a reference. -/
theorem exists_of_className? {type : TypeDesc} (h : FieldType.ofType className type = .ok t)
    {cls : String} (hcls : t.className? = some cls) : ∃ name, className name = .ok cls := by
  induction type generalizing t with
  | primitive name =>
    unfold FieldType.ofType at h
    split at h
    · cases h
      cases hcls
    · cases h
  | collection item ih =>
    obtain ⟨t', ht', rfl⟩ := map_eq_ok_iff.mp h
    exact ih ht' hcls
  | optional inner ih =>
    obtain ⟨t', ht', rfl⟩ := map_eq_ok_iff.mp h
    exact ih ht' hcls
  | reference name =>
    obtain ⟨cls', hcls', rfl⟩ := map_eq_ok_iff.mp h
    cases hcls
    exact ⟨name, hcls'⟩

theorem exists_of_className?_variant {v : Schema.Variant} (h : variantType className v = .ok t)
    {cls : String} (hcls : t.className? = some cls) : ∃ name, className name = .ok cls := by
  unfold variantType at h
  split at h
  · cases h
    cases hcls
  · unfold FieldType.ofOptionalType at h
    split at h
    · exact exists_of_className? h hcls
    · obtain ⟨t', ht', rfl⟩ := map_eq_ok_iff.mp h
      exact exists_of_className? ht' hcls

theorem exists_of_className?_item {m : Method} {i : Item} {c : ClassDef} {f : FieldDef}
    (h : itemClass className m i = .ok c) (hf : f ∈ c.fields) {cls : String}
    (hcls : f.fieldType.className? = some cls) : ∃ name, className name = .ok cls := by
  cases i with
  | struct s =>
    obtain ⟨base, fields, -, hfields, rfl⟩ := structClass_eq_ok_iff.mp h
    obtain ⟨field, -, hdef⟩ := exists_of_mem_mapM hfields hf
    obtain ⟨wire, t, fallback, -, ht, -, rfl⟩ := fieldDef_eq_ok_iff.mp hdef
    exact exists_of_className? ht hcls
  | enum e =>
    obtain ⟨fields, -, -, hfields, rfl⟩ := enumClass_eq_ok_iff.mp h
    obtain ⟨variant, -, hdef⟩ := exists_of_mem_mapM hfields hf
    obtain ⟨wire, t, -, ht, rfl⟩ := variantDef_eq_ok_iff.mp hdef
    exact exists_of_className?_variant ht hcls

end

theorem mem_classNames_of_classFor {e : Endpoint} {index : Nat} {name cls : String}
    (h : classFor e.name e.entries index name = .ok cls) :
    cls ∈ e.methods.flatMap (·.classNames) := by
  unfold classFor at h
  split at h
  · next x hx =>
    cases h
    obtain ⟨j, -, hj⟩ := Option.bind_eq_some_iff.mp hx
    rw [← classNames_entriesFrom 0]
    exact List.mem_map.mpr ⟨x, List.mem_of_getElem? hj, rfl⟩
  · cases h

theorem mem_classNames_of_findRole? {m : Method} {role : Option Role} {s : Struct}
    (h : m.findRole? role = some s) : m.className s.name ∈ m.classNames :=
  List.mem_map.mpr ⟨.struct s, Schema.mem_items_of_findRole? h, rfl⟩

/-- The functions of a method mention its own classes. -/
theorem mem_classNames_of_mem_functions {m : Method} {functions : List FunctionDef}
    {f : FunctionDef} (h : methodFunctions m = .ok functions) (hf : f ∈ functions) {cls : String}
    (hcls : cls ∈ f.body.classNames) : cls ∈ m.classNames := by
  have hparams : ∀ roles, ∀ cls ∈ (paramsFor m roles).map (·.className), cls ∈ m.classNames := by
    intro roles
    refine List.forall_mem_map.mpr fun p hp => ?_
    obtain ⟨role, -, hparam⟩ := List.mem_filterMap.mp hp
    obtain ⟨s, hs, rfl⟩ := Option.map_eq_some_iff.mp hparam
    exact mem_classNames_of_findRole? hs
  obtain ⟨values, -, hmade⟩ := functionOf_of_mem h hf
  cases hmade with
  | uri => exact hparams _ cls hcls
  | request => exact hparams _ cls hcls
  | response hs =>
    rw [List.mem_singleton.mp hcls]
    exact mem_classNames_of_findRole? hs
  | headers hs =>
    rw [List.mem_singleton.mp hcls]
    exact mem_classNames_of_findRole? hs

/-! ## Modules -/

def Module.Knows (m : Module) (name : String) : Prop :=
  name ∈ builtins ∨ name ∈ m.boundNames ∨ name ∈ m.classes.map (·.name)

/-- Every name in use is known, and every import is in use. -/
structure Module.Closed (m : Module) : Prop where
  known : ∀ name ∈ m.usedNames, m.Knows name
  needed : ∀ name ∈ m.boundNames, name ∉ ["annotations", "runtime"] → name ∈ m.usedNames

/-- Classes are named by words, and every class that types and signatures mention is one of the
module. -/
structure Module.Rooted (m : Module) : Prop where
  words : ∀ name ∈ m.classes.map (·.name), IsWord name
  types : ∀ f ∈ m.fields, ∀ cls ∈ f.fieldType.className?, cls ∈ m.classes.map (·.name)
  signatures : ∀ f ∈ m.functions, ∀ cls ∈ f.body.classNames, cls ∈ m.classes.map (·.name)

theorem rooted_of_ofEndpoint {unit : String} {e : Endpoint} {module : Module}
    (h : ofEndpoint unit e = .ok module) (hlegal : ∀ c ∈ module.classes, Name.IsLegal c.name) :
    module.Rooted := by
  have hnames := classNames_ofEndpoint h
  have hwords : ∀ name ∈ module.classes.map (·.name), IsWord name :=
    List.forall_mem_map.mpr fun c hc => isWord_of_isLegal (hlegal c hc)
  obtain ⟨parts, hparts, h⟩ := bind_eq_ok_iff.mp h
  cases h
  refine ⟨hwords, ?_, ?_⟩
  · intro f hf cls hcls
    obtain ⟨c, hc, hf⟩ := List.mem_flatMap.mp hf
    obtain ⟨x, -, hclass⟩ := exists_of_mem_forall₂ (classes_partsFrom hparts) hc
    obtain ⟨name, hname⟩ := exists_of_className?_item hclass hf hcls
    rw [hnames]
    exact mem_classNames_of_classFor hname
  · intro f hf cls hcls
    obtain ⟨m, hm, functions, hfunctions, hf⟩ := exists_of_mem_functions hparts hf
    rw [hnames]
    exact List.mem_flatMap.mpr ⟨m, hm, mem_classNames_of_mem_functions hfunctions hf hcls⟩

section

variable {m : Module}

theorem knows_of_mem_imports {i : Import} (h : i ∈ m.imports) : m.Knows i.name :=
  Or.inr (Or.inl (mem_boundNames_iff.mpr (Or.inr (Or.inr ⟨i, h, rfl⟩))))

theorem field_mem_imports {f : FieldDef} (h : f ∈ m.fields) :
    (⟨"pydantic", "Field"⟩ : Import) ∈ m.imports := by
  refine List.mem_append_right _ ?_
  rw [if_neg fun hempty => ?_]
  · exact List.mem_singleton_self _
  · rw [List.isEmpty_iff.mp hempty] at h
    cases h

theorem knows_of_mem_fieldDefault {f : FieldDef} (hf : f ∈ m.fields) {name : String}
    (h : name ∈ usedNames (Layout.fieldDefault f).toList) : m.Knows name := by
  rcases mem_fieldDefault_cases h with rfl | hbuiltin
  · exact knows_of_mem_imports (field_mem_imports hf)
  · exact Or.inl hbuiltin

theorem knows_of_mem_plainNames {body : Body} {name : String} (h : name ∈ body.plainNames) :
    m.Knows name := by
  have hstr : m.Knows "str" := Or.inl (by decide)
  have hruntime : m.Knows "runtime" :=
    Or.inr (Or.inl (mem_boundNames_iff.mpr (Or.inr (Or.inl rfl))))
  cases body with
  | uri _ _ _ _ => rwa [List.mem_singleton.mp h]
  | request _ _ _ _ _ _ => rwa [List.mem_singleton.mp h]
  | response _ => rwa [List.mem_singleton.mp h]
  | headers _ => rwa [List.mem_singleton.mp h]

theorem mem_usedNames_of_field {f : FieldDef} {name : String} (hf : f ∈ m.fields)
    (h : name ∈ usedNames f.fieldType.text.toList ∨
      name ∈ usedNames (Layout.fieldDefault f).toList) : name ∈ m.usedNames := by
  obtain ⟨c, hc, hf⟩ := List.mem_flatMap.mp hf
  exact List.mem_append_left _ (List.mem_flatMap.mpr ⟨c, hc, List.mem_append_left _
    (List.mem_flatMap.mpr ⟨f, hf, List.mem_append.mpr h⟩)⟩)

namespace Module.Rooted

variable (hrooted : m.Rooted)
include hrooted

theorem isWord_of_className? {f : FieldDef} (hf : f ∈ m.fields) :
    ∀ cls ∈ f.fieldType.className?, IsWord cls :=
  fun cls hcls => hrooted.words cls (hrooted.types f hf cls hcls)

theorem usedNames_text {f : FieldDef} (hf : f ∈ m.fields) :
    Text.usedNames f.fieldType.text.toList = f.fieldType.names := by
  have hnames := Client.usedNames_text (hrooted.isWord_of_className? hf) endsUse_nil
  rwa [List.append_nil, show Text.usedNames [] = [] from rfl, List.append_nil] at hnames

theorem knows_of_mem_names {f : FieldDef} (hf : f ∈ m.fields) {name : String}
    (h : name ∈ f.fieldType.names) : m.Knows name := by
  rcases mem_names_cases h with hbuiltin | ⟨i, hi, rfl⟩ | hcls
  · exact Or.inl hbuiltin
  · exact knows_of_mem_imports (List.mem_append_left _ (List.mem_flatMap.mpr ⟨f, hf, hi⟩))
  · exact Or.inr (Or.inr (hrooted.types f hf name hcls))

theorem knows_of_mem_class {c : ClassDef} (hc : c ∈ m.classes) {name : String}
    (h : name ∈ c.usedNames) : m.Knows name := by
  have hmem : ∀ f ∈ c.fields, f ∈ m.fields := fun f hf => List.mem_flatMap.mpr ⟨c, hc, hf⟩
  rcases List.mem_append.mp h with h | h
  · obtain ⟨f, hf, h⟩ := List.mem_flatMap.mp h
    rw [hrooted.usedNames_text (hmem f hf), List.mem_append] at h
    rcases h with h | h
    · exact hrooted.knows_of_mem_names (hmem f hf) h
    · exact knows_of_mem_fieldDefault (hmem f hf) h
  · split at h
    · obtain ⟨f, hf, h⟩ := List.mem_flatMap.mp h
      have hclass : c.name ∈ m.classes.map (·.name) := List.mem_map_of_mem hc
      rcases ((mem_usedNames_builder_iff (hrooted.words _ hclass)
        (hrooted.isWord_of_className? (hmem f hf))).mp h).2 with h | rfl
      · exact hrooted.knows_of_mem_names (hmem f hf) h
      · exact Or.inr (Or.inr hclass)
    · cases h

theorem knows_of_mem_signature {f : FunctionDef} (hf : f ∈ m.functions) {name : String}
    (h : name ∈ Text.usedNames f.signature.toList) : m.Knows name := by
  have hclasses := hrooted.signatures f hf
  rw [mem_usedNames_signature fun cls hcls => hrooted.words cls (hclasses cls hcls)] at h
  rcases h with h | h
  · exact knows_of_mem_plainNames h
  · exact Or.inr (Or.inr (hclasses name h))

/-- What is imported for the types of fields stands in them, and the rest in their defaults. -/
theorem mem_usedNames_of_mem_imports {i : Import} (h : i ∈ m.imports) : i.name ∈ m.usedNames := by
  rcases List.mem_append.mp h with h | h
  · obtain ⟨f, hf, hi⟩ := List.mem_flatMap.mp h
    refine mem_usedNames_of_field hf (Or.inl ?_)
    rw [hrooted.usedNames_text hf]
    exact mem_names_of_mem_imports hi
  · split at h
    · cases h
    · next hsome =>
      obtain ⟨f, hf⟩ := List.exists_mem_of_ne_nil m.fields fun hnil => hsome (by rw [hnil]; rfl)
      rw [List.mem_singleton.mp h]
      refine mem_usedNames_of_field hf (Or.inr ?_)
      rw [usedNames_fieldDefault]
      exact List.mem_cons_self

theorem closed : m.Closed := by
  constructor
  · intro name hname
    rcases List.mem_append.mp hname with hname | hname
    · obtain ⟨c, hc, hname⟩ := List.mem_flatMap.mp hname
      exact hrooted.knows_of_mem_class hc hname
    · obtain ⟨f, hf, hname⟩ := List.mem_flatMap.mp hname
      exact hrooted.knows_of_mem_signature hf hname
  · intro name hbound hother
    rcases mem_boundNames_iff.mp hbound with rfl | rfl | ⟨i, hi, rfl⟩
    · exact absurd (by decide) hother
    · exact absurd (by decide) hother
    · exact hrooted.mem_usedNames_of_mem_imports hi

end Module.Rooted

end

/-! ## References -/

/-- The classes of a module are made for the items of its endpoint, in order, and a reference seen
from a method is written as the name of one class alone, that of the item which it refers to. -/
structure Module.Linked (e : Endpoint) (module : Module) : Prop where
  made : List.Forall₂ (fun x c =>
    itemClass (classFor e.name e.entries x.methodIndex) x.method x.item = .ok c)
    e.entries module.classes
  references : ∀ (k : Nat) (m : Method), e.methods[k]? = some m →
    ∀ i ∈ m.items, ∀ r ∈ i.references, ∃ (j : Nat) (x : Entry) (c : ClassDef),
      Schema.resolve? e.entries k r.name = some x ∧ e.entries[j]? = some x ∧
      module.classes[j]? = some c ∧
      (FieldType.ofType (classFor e.name e.entries k) (.reference r.name)).map FieldType.text =
        .ok c.name ∧
      module.classes.filter (·.name == c.name) = [c]

theorem filter_eq_singleton {α : Type} {key : α → String} {xs : List α} {x : α}
    (hkeys : (xs.map key).Nodup) (hx : x ∈ xs) : xs.filter (key · == key x) = [x] := by
  induction xs with
  | nil => cases hx
  | cons y rest ih =>
    obtain ⟨hy, hrest⟩ := List.nodup_cons.mp hkeys
    rcases List.mem_cons.mp hx with rfl | hx
    · rw [List.filter_cons_of_pos (p := (key · == key x)) (beq_self_eq_true _), List.cons.injEq,
        List.filter_eq_nil_iff]
      refine ⟨rfl, fun z hz hkey => hy ?_⟩
      exact List.mem_map.mpr ⟨z, hz, beq_iff_eq.mp hkey⟩
    · have hne : key y ≠ key x := fun heq => hy (heq ▸ List.mem_map_of_mem hx)
      rw [List.filter_cons_of_neg (by simpa using hne), ih hrest hx]

theorem linked_of_ofEndpoint {unit : String} {e : Endpoint} {module : Module}
    (h : ofEndpoint unit e = .ok module) (hnodup : (module.classes.map (·.name)).Nodup)
    (hdeclared : ∀ m ∈ e.methods, ∀ i ∈ m.items, ∀ r ∈ i.references, e.Declares r.name) :
    module.Linked e := by
  obtain ⟨parts, hparts, h⟩ := bind_eq_ok_iff.mp h
  cases h
  have hmade := classes_partsFrom hparts
  refine ⟨hmade, fun k m hm i hi r hr => ?_⟩
  have hdeclares := hdeclared m (List.mem_of_getElem? hm) i hi r hr
  cases hindex : Schema.resolveIndex? e.entries k r.name with
  | none => exact absurd hdeclares (Schema.resolveIndex?_eq_none_iff_not_declares.mp hindex)
  | some j =>
    have hj := Schema.lt_length_of_resolveIndex? hindex
    have hj' : j < parts.1.length := hmade.length_eq ▸ hj
    have hclass := (List.forall₂_iff_get.mp hmade).2 j hj hj'
    have hresolve : Schema.resolve? e.entries k r.name = some e.entries[j] := by
      rw [Schema.resolve?, hindex, Option.bind_some, List.getElem?_eq_getElem hj]
    refine ⟨j, e.entries[j], parts.1[j], hresolve, List.getElem?_eq_getElem hj,
      List.getElem?_eq_getElem hj', ?_, filter_eq_singleton hnodup (List.getElem_mem hj')⟩
    rw [FieldType.ofType, classFor, hresolve]
    exact congrArg Except.ok (name_of_itemClass hclass).symm

end Client

namespace Schema

theorem Item.Resolves.references_eq {i i' : Item} (h : i.Resolves i') :
    i'.references = i.references := by
  obtain ⟨c, -, hwf, rfl⟩ := h
  cases i with
  | struct s =>
    show (resolveStruct { s with capability := c }).fields.flatMap _ = _
    rw [resolveStruct_eq hwf, List.flatMap_map]
    rfl
  | enum e =>
    show (resolveEnum { e with capability := c }).variants.flatMap _ = _
    rw [resolveEnum_eq hwf, List.flatMap_map]
    rfl

/-- References lead to items after analysis too. -/
theorem declares_of_mem_references {e : Endpoint} (hwf : e.WellFormed) {m : Method} {i : Item}
    {r : Reference} (hm : m ∈ (resolveEndpoint e).methods) (hi : i ∈ m.items)
    (hr : r ∈ i.references) : (resolveEndpoint e).Declares r.name := by
  obtain ⟨m₀, hm₀, items, hitems, rfl⟩ := exists_of_mem_forall₂ (resolves_resolveEndpoint hwf) hm
  obtain ⟨i₀, hi₀, hresolves⟩ := exists_of_mem_forall₂ hitems hi
  rw [hresolves.references_eq] at hr
  exact Client.declares_resolveEndpoint hwf ((hwf.methods m₀ hm₀).references i₀ hi₀ r hr)

end Schema

theorem modules_rooted {text unit : String} {c : Compilation} (h : compile text unit = .ok c)
    (hok : c.diagnostics = []) :
    List.Forall₂ (fun e module => Client.Module.Rooted module ∧
      Client.Module.Linked (Schema.resolveEndpoint e) module)
      c.built.schema.endpoints c.modules := by
  obtain ⟨hparsed, hbuilt, hschema, hmodules⟩ := modules_of_compile h hok
  refine forall₂_imp_of_mem hmodules fun e module he _ hmade => ?_
  have hwf := hschema.endpoints e he
  rw [hbuilt] at he
  have hnamed := Client.wellNamed_of_ofEndpoint hwf
    (fun m hm => Schema.spelled_of_build hparsed he hm (hwf.methods m hm)) hmade
  have hlegal : ∀ c ∈ module.classes, Name.IsLegal c.name := fun c hc =>
    hnamed.declared c.name (List.mem_append_left _ (List.mem_map_of_mem hc))
  have hnodup : (module.classes.map (·.name)).Nodup := hnamed.classes ▸ hwf.classes
  refine ⟨Client.rooted_of_ofEndpoint hmade hlegal, ?_⟩
  exact Client.linked_of_ofEndpoint hmade hnodup fun m hm i hi r hr =>
    Schema.declares_of_mem_references hwf hm hi hr

/-- In every module of a source that compiles the names in use are known, the imports are in use,
and references are written as the names of the classes that they lead to. -/
theorem modules_closed {text unit : String} {c : Compilation} (h : compile text unit = .ok c)
    (hok : c.diagnostics = []) :
    List.Forall₂ (fun e module => Client.Module.Emits module ∧ Client.Module.Closed module ∧
      Client.Module.Linked (Schema.resolveEndpoint e) module)
      c.built.schema.endpoints c.modules :=
  (modules_rooted h hok).imp fun _ module ⟨hrooted, hlinked⟩ =>
    ⟨Client.emits module, hrooted.closed, hlinked⟩

/-- A class that refers to itself is used from the next method. -/
theorem linked_modules_closed : ∃ c, compile Schema.linkedText "" = .ok c ∧
    c.diagnostics = [] ∧
    List.Forall₂ (fun e module => Client.Module.Emits module ∧ Client.Module.Closed module ∧
      Client.Module.Linked (Schema.resolveEndpoint e) module) Schema.linkedSchema.endpoints
      c.modules := by
  obtain ⟨c, hc, hok, hschema⟩ := exists_linked_compilation
  have hclosed := modules_closed hc hok
  rw [hschema] at hclosed
  exact ⟨c, hc, hok, hclosed⟩

end EndpointDsl
