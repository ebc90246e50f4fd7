import EndpointDsl.Proofs.Client.Docs
import EndpointDsl.Proofs.Client.Layout

/-!
The declarations of a module have no null character unless the schema has one.

Names of classes, functions and attributes are made of the names of the schema, and documentation
quotes its paths, names, types and wire names.
-/

namespace EndpointDsl

open Text

namespace Client

open Schema (Endpoint Entry Item Method Struct Enum Field Variant TypeDesc)

/-! ## Documentation -/

namespace Docs

theorem nullFree_escape {s : String} (h : NullFree s) : NullFree (escape s) := by
  rw [escape, nullFree_ofList]
  intro hnull
  obtain ⟨c, hc, hmem⟩ := List.mem_flatMap.mp hnull
  unfold escapeChar at hmem
  split at hmem
  · rcases List.mem_cons.mp hmem with heq | hmem
    · exact absurd heq (by decide)
    · rw [← List.mem_singleton.mp hmem] at hc
      exact h hc
  · rw [← List.mem_singleton.mp hmem] at hc
    exact h hc

end Docs

/-- What documentation shows of a clean item has no null character. -/
theorem shows_of_clean {i : Item} (h : i.Clean) : i.Shows NullFree := by
  cases i with
  | struct s =>
    exact fun f hf => ⟨(h.2 f hf).name, (h.2 f hf).type, Docs.nullFree_escape (h.2 f hf).wire⟩
  | enum e =>
    exact fun v hv => ⟨(h.2 v hv).name, (h.2 v hv).payload, Docs.nullFree_escape (h.2 v hv).wire⟩

theorem shows_of_method_clean {m : Method} (h : m.Clean) : m.Shows NullFree where
  path := Docs.nullFree_escape h.path
  items := fun i hi => shows_of_clean (h.items i hi)

theorem shows_of_endpoint_clean {e : Endpoint} (h : e.Clean) : e.Shows NullFree where
  name := h.name
  methods := fun m hm => shows_of_method_clean (h.methods m hm)

/-! ## Classes -/

/-- The classes that names stand for have clean names. -/
def ClassNamesClean (className : String → Gen String) : Prop :=
  ∀ name cls, className name = .ok cls → NullFree cls

section

variable {className : String → Gen String} {m : Method}

theorem nullFree_ofType (hclass : ClassNamesClean className) {type : TypeDesc} {t : FieldType}
    (h : FieldType.ofType className type = .ok t) : NullFree t.text := by
  induction type generalizing t with
  | primitive name =>
    rw [FieldType.ofType] at h
    split at h
    · next kind _ =>
      cases h
      cases kind <;> decide
    · cases h
  | collection item ih =>
    obtain ⟨inner, hinner, rfl⟩ := map_eq_ok_iff.mp h
    exact nullFree_append.mpr ⟨nullFree_append.mpr ⟨by decide, ih hinner⟩, by decide⟩
  | reference name =>
    obtain ⟨cls, hcls, rfl⟩ := map_eq_ok_iff.mp h
    exact hclass name cls hcls
  | optional inner ih =>
    obtain ⟨t, ht, rfl⟩ := map_eq_ok_iff.mp h
    exact nullFree_append.mpr ⟨nullFree_append.mpr ⟨by decide, ih ht⟩, by decide⟩

theorem clean_fieldDef (hclass : ClassNamesClean className) {struct : String} {f : Field}
    {d : FieldDef} (hf : f.Clean) (h : fieldDef className struct f = .ok d) : d.Clean := by
  obtain ⟨wire, type, fallback, -, htype, -, rfl⟩ := fieldDef_eq_ok_iff.mp h
  exact ⟨Name.nullFree_attributeName (nullFree_of_isIdent hf.name), nullFree_ofType hclass htype⟩

theorem clean_variantDef (hclass : ClassNamesClean className) {enum : String} {v : Variant}
    {d : FieldDef} (hv : v.Clean) (h : variantDef className enum v = .ok d) : d.Clean := by
  obtain ⟨wire, type, -, htype, rfl⟩ := variantDef_eq_ok_iff.mp h
  refine ⟨Name.nullFree_attributeName (nullFree_of_isIdent hv.name), ?_⟩
  unfold variantType at htype
  split at htype
  · cases htype
    exact nullFree_chars (by decide)
  · unfold FieldType.ofOptionalType at htype
    split at htype
    · exact nullFree_ofType hclass htype
    · obtain ⟨t, ht, rfl⟩ := map_eq_ok_iff.mp htype
      exact nullFree_append.mpr
        ⟨nullFree_append.mpr ⟨by decide, nullFree_ofType hclass ht⟩, by decide⟩

theorem nullFree_className (hm : m.Clean) {name : String} (hname : isIdent name.toList = true) :
    NullFree (m.className name) :=
  Name.nullFree_className m.verb hm.parameters (nullFree_of_isIdent hname)

theorem clean_itemClass (hclass : ClassNamesClean className) {i : Item} {c : ClassDef}
    (hm : m.Clean) (hi : i.Clean) (h : itemClass className m i = .ok c) : c.Clean := by
  have hdoc := holds_itemClass nullFree_composable (shows_of_method_clean hm) (shows_of_clean hi) h
  cases i with
  | struct s =>
    obtain ⟨base, fields, -, hfields, rfl⟩ := structClass_eq_ok_iff.mp h
    have hname := nullFree_className hm hi.1
    refine ⟨hname, hdoc, fun d hd => ?_⟩
    obtain ⟨f, hf, hd⟩ := exists_of_mem_mapM hfields hd
    exact clean_fieldDef hclass (hi.2 f hf) hd
  | enum e =>
    obtain ⟨fields, -, -, hfields, rfl⟩ := enumClass_eq_ok_iff.mp h
    have hname := nullFree_className hm hi.1
    refine ⟨hname, hdoc, fun d hd => ?_⟩
    obtain ⟨v, hv, hd⟩ := exists_of_mem_mapM hfields hd
    exact clean_variantDef hclass (hi.2 v hv) hd

/-! ## Functions -/

theorem clean_of_findRole? (hm : m.Clean) {role : Option Role} {s : Struct}
    (h : m.findRole? role = some s) : (Item.struct s).Clean :=
  hm.items _ (Schema.mem_items_of_findRole? h)

theorem nullFree_paramsFor (hm : m.Clean) (roles : List Role) :
    ∀ p ∈ paramsFor m roles, NullFree p.className := by
  intro p hp
  obtain ⟨role, -, hparam⟩ := List.mem_filterMap.mp hp
  obtain ⟨s, hs, rfl⟩ := Option.map_eq_some_iff.mp hparam
  exact nullFree_className hm (clean_of_findRole? hm hs).1

theorem clean_methodFunctions (hm : m.Clean) {functions : List FunctionDef} {f : FunctionDef}
    (h : methodFunctions m = .ok functions) (hf : f ∈ functions) : f.Clean := by
  have hidentifier : NullFree m.identifier :=
    Name.nullFree_methodIdentifier m.verb hm.parameters
  have hnamed : ∀ {before after : String}, NullFree before → NullFree after →
      NullFree (before ++ m.identifier ++ after) := fun hbefore hafter =>
    nullFree_append.mpr ⟨nullFree_append.mpr ⟨hbefore, hidentifier⟩, hafter⟩
  have hdoc := holds_methodFunctions nullFree_composable (shows_of_method_clean hm) h hf
  have huri : NullFree (m.identifier ++ "_uri") := nullFree_append.mpr ⟨hidentifier, by decide⟩
  obtain ⟨values, hvalues, hmade⟩ := functionOf_of_mem h hf
  cases hmade with
  | uri =>
    refine ⟨huri, hdoc, nullFree_paramsFor hm _, fun v hv => ?_⟩
    obtain ⟨p, hp, hvalue⟩ := exists_of_mem_mapM hvalues hv
    have hparameter := hm.parameters p (PathTemplate.mem_firstOccurrences.mp hp).1
    unfold pathValue at hvalue
    split at hvalue
    · cases hvalue
      exact Name.nullFree_attributeName hparameter
    · cases hvalue
  | request => exact ⟨hnamed (by decide) (by decide), hdoc, nullFree_paramsFor hm _, huri⟩
  | response hs =>
    exact ⟨hnamed (by decide) (by decide), hdoc,
      nullFree_className hm (clean_of_findRole? hm hs).1⟩
  | headers hs =>
    exact ⟨hnamed (by decide) (by decide), hdoc,
      nullFree_className hm (clean_of_findRole? hm hs).1⟩

end

/-! ## Modules -/

theorem classNamesClean_classFor {e : Endpoint} (h : e.Clean) (index : Nat) :
    ClassNamesClean (classFor e.name e.entries index) := by
  intro name cls hcls
  unfold classFor at hcls
  split at hcls
  · next x hx =>
    cases hcls
    obtain ⟨i, -, hi⟩ := Option.bind_eq_some_iff.mp hx
    obtain ⟨hmethod, hitem⟩ := mem_of_mem_entriesFrom (List.mem_of_getElem? hi)
    have hm := h.methods x.method hmethod
    refine nullFree_className hm ?_
    have hclean := hm.items x.item hitem
    cases hx : x.item with
    | struct s => rw [hx] at hclean; exact hclean.1
    | enum e => rw [hx] at hclean; exact hclean.1
  · cases hcls

/-- The module of a clean endpoint is clean. -/
theorem clean_of_ofEndpoint {unit : String} {e : Endpoint} {module : Module} (he : e.Clean)
    (h : ofEndpoint unit e = .ok module) : module.Clean ∧ module.unit = unit := by
  have hdoc : NullFree module.doc :=
    holds_of_mem_docs nullFree_composable (shows_of_endpoint_clean he) h _ List.mem_cons_self
  obtain ⟨parts, hparts, h⟩ := bind_eq_ok_iff.mp h
  cases h
  refine ⟨⟨hdoc, fun c hc => ?_, fun f hf => ?_⟩, rfl⟩
  · obtain ⟨x, hx, hclass⟩ := exists_of_mem_forall₂ (classes_partsFrom hparts) hc
    obtain ⟨hmethod, hitem⟩ := mem_of_mem_entriesFrom hx
    have hm := he.methods x.method hmethod
    exact clean_itemClass (classNamesClean_classFor he _) hm (hm.items x.item hitem) hclass
  · obtain ⟨m, hm, functions, hfunctions, hmem⟩ := exists_of_mem_functions hparts hf
    exact clean_methodFunctions (he.methods m hm) hfunctions hmem

end Client
end EndpointDsl
