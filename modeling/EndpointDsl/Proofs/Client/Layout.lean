import EndpointDsl.Client.Layout
import EndpointDsl.Proofs.Client.Documentation
import EndpointDsl.Proofs.Text.NullFree

/-!
The text of a module is put together of its declarations.

Attributes, types, names of classes and functions and the documentation are written as they are, and
every other text is quoted.  So the text has no null character if none of those has.
-/

namespace EndpointDsl

open Text

/-! ## Lines -/

namespace Text

variable {s t : String} {cs : List Char}

theorem nullFree_of_mem_lines (h : NullFree s) (ht : t ∈ lines (trimNewlines s)) : NullFree t := by
  obtain ⟨l, hl, rfl⟩ := List.mem_map.mp ht
  rw [nullFree_ofList]
  rw [trimNewlines, String.toList_ofList] at hl
  intro hnull
  have hmem := (mem_of_mem_linesFrom hl hnull).resolve_left List.not_mem_nil
  exact h (trimChars_subset _ _ hmem)

end Text

namespace Client

/-! ## Documentation -/

namespace Docs

@[simp] theorem nullFree_code {s : String} : NullFree (code s) ↔ NullFree s := by
  rw [code, nullFree_append, nullFree_append]
  exact ⟨fun h => h.1.2, fun h => ⟨⟨by decide, h⟩, by decide⟩⟩

theorem nullFree_spaces (n : Nat) : NullFree (String.ofList (List.replicate n ' ')) :=
  nullFree_chars fun hnull => absurd (List.eq_of_mem_replicate hnull) (by decide)

theorem nullFree_padded {indent : Nat} {line : String} (h : NullFree line) :
    NullFree (padded indent line) := by
  unfold padded
  split
  · decide
  · exact nullFree_append.mpr ⟨nullFree_spaces indent, h⟩

theorem nullFree_literal {indent : Nat} {text : String} (h : NullFree text) :
    NullFree (literal indent text) := by
  have hlines : ∀ line ∈ lines (trimNewlines text), NullFree line :=
    fun line hline => nullFree_of_mem_lines h hline
  unfold literal literal?
  split
  · decide
  · next line hline =>
    rw [hline] at hlines
    have hfree := hlines line (List.mem_singleton_self line)
    simp only [Option.getD_some, nullFree_append]
    exact ⟨⟨by decide, hfree⟩, by decide⟩
  · next first rest _ hall =>
    rw [hall] at hlines
    obtain ⟨hfirst, hrest⟩ := List.forall_mem_cons.mp hlines
    have hjoined : NullFree (String.intercalate "\n" (first :: rest.map (padded indent))) := by
      refine nullFree_intercalate (by decide) (List.forall_mem_cons.mpr ⟨hfirst, ?_⟩)
      exact List.forall_mem_map.mpr fun line hline => nullFree_padded (hrest line hline)
    simp only [Option.getD_some, nullFree_append]
    exact ⟨⟨⟨⟨by decide, hjoined⟩, by decide⟩, nullFree_spaces indent⟩, by decide⟩

end Docs

/-! ## Declarations -/

structure FieldDef.Clean (f : FieldDef) : Prop where
  attr : NullFree f.attr
  type : NullFree f.fieldType.text

structure ClassDef.Clean (c : ClassDef) : Prop where
  name : NullFree c.name
  doc : NullFree c.doc
  fields : ∀ f ∈ c.fields, f.Clean

def Body.Clean : Body → Prop
  | .uri params _ values _ =>
    (∀ p ∈ params, NullFree p.className) ∧ ∀ v ∈ values, NullFree v.attr
  | .request params _ uriFunction _ _ _ =>
    (∀ p ∈ params, NullFree p.className) ∧ NullFree uriFunction
  | .response className => NullFree className
  | .headers className => NullFree className

structure FunctionDef.Clean (f : FunctionDef) : Prop where
  name : NullFree f.name
  doc : NullFree f.doc
  body : f.body.Clean

/-- No part of the declarations that is written as it is has a null character. -/
structure Module.Clean (m : Module) : Prop where
  doc : NullFree m.doc
  classes : ∀ c ∈ m.classes, c.Clean
  functions : ∀ f ∈ m.functions, f.Clean

/-! ## Lines of a module -/

namespace Layout

theorem nullFree_block {lines : List String} (h : ∀ line ∈ lines, NullFree line) :
    NullFree (block lines) :=
  nullFree_join (List.forall_mem_map.mpr fun line hline =>
    nullFree_append.mpr ⟨h line hline, by decide⟩)

@[simp] theorem nullFree_stringLiteral (s : String) : NullFree (stringLiteral s) :=
  nullFree_asciiLiteral s

theorem nullFree_literalList (items : List String) : NullFree (literalList items) :=
  nullFree_intercalate (by decide)
    (List.forall_mem_map.mpr fun item _ => nullFree_stringLiteral item)

theorem nullFree_setLiteral (items : List String) : NullFree (setLiteral items) := by
  simp only [setLiteral, braces, nullFree_append, nullFree_literalList, and_true]
  and_intros <;> exact nullFree_chars (by decide)

theorem nullFree_tupleLiteral (items : List String) : NullFree (tupleLiteral items) := by
  unfold tupleLiteral
  split <;>
  · simp only [nullFree_append, nullFree_stringLiteral, nullFree_literalList, and_true]
    exact ⟨by decide, by decide⟩

theorem mem_insertSorted_iff {n name : String} {names : List String} :
    n ∈ insertSorted name names ↔ n = name ∨ n ∈ names := by
  fun_induction insertSorted name names with
  | case1 => rw [List.mem_singleton, List.mem_nil_iff, or_false]
  | case2 rest => rw [List.mem_cons, ← or_assoc, or_self]
  | case3 => rw [List.mem_cons]
  | case4 m rest hne hlt ih => rw [List.mem_cons, ih, List.mem_cons, or_left_comm]

theorem mem_importedNames_iff {module n : String} {imports : List Import} :
    n ∈ importedNames module imports ↔ ∃ i ∈ imports, i.module = module ∧ i.name = n := by
  have hfold : ∀ (some : List Import) (names : List String),
      n ∈ some.foldl (fun names i => insertSorted i.name names) names ↔
        n ∈ names ∨ ∃ i ∈ some, i.name = n := by
    intro some
    induction some with
    | nil => simp
    | cons i rest ih =>
      intro names
      rw [List.foldl_cons, ih, mem_insertSorted_iff, List.exists_mem_cons_iff, ← or_assoc,
        or_comm (a := n = i.name), eq_comm (a := n)]
  rw [importedNames, hfold]
  simp only [List.not_mem_nil, false_or, List.mem_filter, beq_iff_eq, and_assoc]

theorem nullFree_of_mem_importedNames {module n : String} {imports : List Import}
    (himports : ∀ i ∈ imports, NullFree i.name) (h : n ∈ importedNames module imports) :
    NullFree n := by
  obtain ⟨i, hi, -, rfl⟩ := mem_importedNames_iff.mp h
  exact himports i hi

theorem nullFree_of_mem_importLine {module line : String} {imports : List Import}
    (hmodule : NullFree module) (himports : ∀ i ∈ imports, NullFree i.name)
    (h : line ∈ importLine imports module) : NullFree line := by
  unfold importLine at h
  split at h
  · cases h
  · rw [List.mem_singleton.mp h]
    have hnames : NullFree (String.intercalate ", " (importedNames module imports)) :=
      nullFree_intercalate (by decide) fun n hn => nullFree_of_mem_importedNames himports hn
    simp only [nullFree_append, nullFree_toString, hmodule, hnames, and_true]
    exact ⟨by decide, by decide⟩

/-- All that the types and defaults of fields ever import. -/
def knownImports : List Import :=
  [⟨"datetime", "date"⟩, ⟨"datetime", "datetime"⟩, ⟨"typing", "Optional"⟩,
    ⟨"pydantic", "NonNegativeInt"⟩, ⟨"pydantic", "Field"⟩]

theorem mem_knownImports {m : Module} {i : Import} (h : i ∈ m.imports) : i ∈ knownImports := by
  have htype : ∀ (type : FieldType), ∀ i ∈ type.imports, i ∈ knownImports := by
    intro type
    induction type with
    | scalar kind => cases kind <;> decide
    | list item ih => exact ih
    | optional inner ih => exact List.forall_mem_cons.mpr ⟨by decide, ih⟩
    | unit => exact nofun
    | model className => exact nofun
  rcases List.mem_append.mp h with h | h
  · obtain ⟨f, -, hi⟩ := List.mem_flatMap.mp h
    exact htype f.fieldType i hi
  · split at h
    · cases h
    · rw [List.mem_singleton.mp h]
      decide

theorem nullFree_of_mem_imports {m : Module} {i : Import} (h : i ∈ m.imports) :
    NullFree i.name := by
  have hall : ∀ i ∈ knownImports, NullFree i.name := by decide
  exact hall i (mem_knownImports h)

theorem nullFree_fieldLine {f : FieldDef} (h : f.Clean) : NullFree (fieldLine f) := by
  have hattr := h.attr
  have htype := h.type
  have hdefault : NullFree (fieldDefault f) := by
    unfold fieldDefault
    cases f.fallback with
    | required | builder =>
      simp only [nullFree_append, nullFree_toString, nullFree_stringLiteral, and_true]
      and_intros <;> exact nullFree_chars (by decide)
    | absent =>
      simp only [nullFree_append, nullFree_toString, nullFree_stringLiteral, and_true]
      and_intros <;> exact nullFree_chars (by decide)
    | zero value =>
      have hfactory : NullFree value.factory := by cases value <;> decide
      simp only [nullFree_append, nullFree_toString, nullFree_stringLiteral, hfactory, and_true]
      and_intros <;> exact nullFree_chars (by decide)
  simp only [fieldLine, nullFree_append, nullFree_toString, hattr, htype, hdefault, and_true]
  and_intros <;> exact nullFree_chars (by decide)

theorem nullFree_of_mem_namedSet {name line : String} {items : List String} (hname : NullFree name)
    (h : line ∈ namedSet name items) : NullFree line := by
  unfold namedSet at h
  split at h
  · cases h
  · rw [List.mem_singleton.mp h]
    simp only [nullFree_append, nullFree_toString, hname, nullFree_setLiteral, and_true]
    exact ⟨by decide, by decide⟩

theorem nullFree_of_mem_classAttributes {c : ClassDef} {line : String}
    (h : line ∈ classAttributes c) : NullFree line := by
  simp only [classAttributes, List.mem_append] at h
  rcases h with ((h | h) | h) | h
  · exact nullFree_of_mem_namedSet (by decide) h
  · split at h
    · rw [List.mem_singleton.mp h, nullFree_append]
      exact ⟨nullFree_chars (by decide), nullFree_stringLiteral _⟩
    · cases h
  · exact nullFree_of_mem_namedSet (by decide) h
  · exact nullFree_of_mem_namedSet (by decide) h

theorem nullFree_of_mem_section {lines : List String} {line : String}
    (hlines : ∀ line ∈ lines, NullFree line) (h : line ∈ section_ lines) : NullFree line := by
  unfold section_ at h
  split at h
  · cases h
  · rcases List.mem_cons.mp h with rfl | h
    · decide
    · exact hlines line h

theorem nullFree_of_mem_builderLines {className line : String} {f : FieldDef}
    (hclass : NullFree className) (hf : f.Clean) (h : line ∈ builderLines className f) :
    NullFree line := by
  have hattr := hf.attr
  have htype := hf.type
  simp only [builderLines, List.mem_cons, List.not_mem_nil, or_false] at h
  rcases h with rfl | rfl | rfl | rfl
  · decide
  · simp only [nullFree_append, nullFree_toString, hattr, htype, hclass, and_true]
    and_intros <;> exact nullFree_chars (by decide)
  · simp only [nullFree_append, Docs.nullFree_code, hattr, and_true]
    and_intros <;> exact nullFree_chars (by decide)
  · simp only [braces, nullFree_append, nullFree_stringLiteral, true_and]
    and_intros <;> exact nullFree_chars (by decide)

theorem nullFree_of_mem_classLines {c : ClassDef} {line : String} (hc : c.Clean)
    (h : line ∈ classLines c) : NullFree line := by
  have hbase : NullFree c.base.name := by cases c.base <;> decide
  have hname := hc.name
  simp only [classLines, List.mem_append, List.mem_cons, List.not_mem_nil, or_false] at h
  rcases h with ((h | h) | h) | h
  · rcases h with rfl | rfl | rfl | rfl
    · decide
    · decide
    · simp only [nullFree_append, nullFree_toString, hname, hbase, and_true]
      and_intros <;> exact nullFree_chars (by decide)
    · exact nullFree_append.mpr ⟨by decide, Docs.nullFree_literal hc.doc⟩
  · exact nullFree_of_mem_section (fun line hline => nullFree_of_mem_classAttributes hline) h
  · refine nullFree_of_mem_section (List.forall_mem_map.mpr fun f hf => ?_) h
    exact nullFree_fieldLine (hc.fields f hf)
  · split at h
    · obtain ⟨f, hf, hline⟩ := List.mem_flatMap.mp h
      exact nullFree_of_mem_builderLines hname (hc.fields f hf) hline
    · cases h

/-! ## Functions -/

theorem nullFree_argumentName (role : Role) : NullFree (argumentName role) := by
  cases role <;> decide

theorem nullFree_paramList {params : List Param} (h : ∀ p ∈ params, NullFree p.className) :
    NullFree (paramList params) := by
  refine nullFree_intercalate (by decide) (List.forall_mem_map.mpr fun p hp => ?_)
  simp only [nullFree_append, nullFree_toString, nullFree_argumentName, h p hp, and_true, true_and]
  decide

theorem nullFree_signature {body : Body} (h : body.Clean) :
    NullFree (signature body).1 ∧ NullFree (signature body).2 := by
  cases body with
  | uri params template values query =>
    exact ⟨nullFree_paramList h.1, nullFree_chars (by decide)⟩
  | request params verb uriFunction uriRoles hasHeader body =>
    exact ⟨nullFree_paramList h.1, nullFree_chars (by decide)⟩
  | response className => exact ⟨nullFree_chars (by decide), h⟩
  | headers className => exact ⟨nullFree_chars (by decide), h⟩

theorem nullFree_substitution {template : String} {values : List PathValue}
    (h : ∀ v ∈ values, NullFree v.attr) : NullFree (substitution template values) := by
  have hvalues : NullFree (String.intercalate ", " (values.map pathValueText)) := by
    refine nullFree_intercalate (by decide) (List.forall_mem_map.mpr fun v hv => ?_)
    simp only [pathValueText, nullFree_append, nullFree_stringLiteral, nullFree_argumentName,
      h v hv, and_true, true_and]
    exact ⟨by decide, by decide⟩
  have hbraces : NullFree (braces (String.intercalate ", " (values.map pathValueText))) :=
    nullFree_append.mpr ⟨nullFree_append.mpr ⟨by decide, hvalues⟩, by decide⟩
  have htemplate : NullFree ("runtime.substitute_path(" ++ stringLiteral template) :=
    nullFree_append.mpr ⟨nullFree_chars (by decide), nullFree_stringLiteral template⟩
  exact nullFree_append.mpr
    ⟨nullFree_append.mpr ⟨nullFree_append.mpr ⟨htemplate, by decide⟩, hbraces⟩, by decide⟩

theorem nullFree_of_mem_uriLines {params : List Param} {template : String}
    {values : List PathValue} {query : Option (List String)} {line : String}
    (hvalues : ∀ v ∈ values, NullFree v.attr)
    (h : line ∈ bodyLines (.uri params template values query)) : NullFree line := by
  have hsubstitution := @nullFree_substitution template values hvalues
  cases query with
  | none =>
    rw [List.mem_singleton.mp h]
    exact nullFree_append.mpr ⟨by decide, hsubstitution⟩
  | some excluded =>
    simp only [bodyLines, List.mem_cons, List.not_mem_nil, or_false] at h
    rcases h with rfl | rfl
    · exact nullFree_append.mpr ⟨by decide, hsubstitution⟩
    · refine nullFree_append.mpr ⟨nullFree_chars (by decide), ?_⟩
      split
      · decide
      · simp only [nullFree_append, nullFree_tupleLiteral, and_true]
        exact ⟨by decide, by decide⟩

theorem nullFree_of_mem_requestLines {params : List Param} {verb : Verb} {uriFunction : String}
    {uriRoles : List Role} {hasHeader : Bool} {body : Option Role} {line : String}
    (huri : NullFree uriFunction)
    (h : line ∈ bodyLines (.request params verb uriFunction uriRoles hasHeader body)) :
    NullFree line := by
  have hroles : NullFree (String.intercalate ", " (uriRoles.map argumentName)) :=
    nullFree_intercalate (by decide)
      (List.forall_mem_map.mpr fun role _ => nullFree_argumentName role)
  simp only [bodyLines, List.mem_cons, List.not_mem_nil, or_false] at h
  rcases h with rfl | rfl | rfl | rfl | rfl | rfl
  · exact nullFree_chars (by decide)
  · simp only [nullFree_append, nullFree_stringLiteral, and_true]
    exact ⟨by decide, by decide⟩
  · simp only [nullFree_append, huri, hroles, and_true]
    and_intros <;> exact nullFree_chars (by decide)
  · simp only [nullFree_append]
    refine ⟨⟨nullFree_chars (by decide), ?_⟩, by decide⟩
    cases hasHeader <;> exact nullFree_chars (by decide)
  · simp only [nullFree_append]
    refine ⟨⟨nullFree_chars (by decide), ?_⟩, by decide⟩
    cases body with
    | none => exact nullFree_chars (by decide)
    | some role => exact nullFree_append.mpr ⟨nullFree_argumentName role, by decide⟩
  · decide

theorem nullFree_of_mem_bodyLines {body : Body} {line : String} (hbody : body.Clean)
    (h : line ∈ bodyLines body) : NullFree line := by
  cases body with
  | uri params template values query => exact nullFree_of_mem_uriLines hbody.2 h
  | request params verb uriFunction uriRoles hasHeader body =>
    exact nullFree_of_mem_requestLines hbody.2 h
  | response className =>
    rw [List.mem_singleton.mp h]
    have hclass : NullFree className := hbody
    simp only [nullFree_append, nullFree_toString, hclass, and_true]
    and_intros <;> exact nullFree_chars (by decide)
  | headers className =>
    rw [List.mem_singleton.mp h]
    have hclass : NullFree className := hbody
    simp only [nullFree_append, nullFree_toString, hclass, and_true]
    and_intros <;> exact nullFree_chars (by decide)

theorem nullFree_of_mem_functionLines {f : FunctionDef} {line : String} (hf : f.Clean)
    (h : line ∈ functionLines f) : NullFree line := by
  obtain ⟨hparams, hreturns⟩ := nullFree_signature hf.body
  have hname := hf.name
  simp only [functionLines, List.mem_append, List.mem_cons, List.not_mem_nil, or_false] at h
  rcases h with (rfl | rfl | rfl | rfl) | h
  · decide
  · decide
  · simp only [nullFree_append, nullFree_toString, hname, hparams, hreturns, and_true]
    and_intros <;> exact nullFree_chars (by decide)
  · exact nullFree_append.mpr ⟨by decide, Docs.nullFree_literal hf.doc⟩
  · obtain ⟨inner, hinner, rfl⟩ := List.mem_map.mp h
    exact nullFree_append.mpr ⟨by decide, nullFree_of_mem_bodyLines hf.body hinner⟩

/-! ## Modules -/

theorem nullFree_of_mem_importGroups {m : Module} {group : List String} {line : String}
    (hgroup : group ∈ importGroups m) (h : line ∈ group) : NullFree line := by
  have himport : ∀ {module}, NullFree module → line ∈ importLine m.imports module →
      NullFree line := fun hmodule hline =>
    nullFree_of_mem_importLine hmodule (fun _ hi => nullFree_of_mem_imports hi) hline
  have hgroup := (List.mem_filter.mp hgroup).1
  simp only [List.mem_cons, List.not_mem_nil, or_false] at hgroup
  rcases hgroup with rfl | rfl | rfl
  · rcases List.mem_append.mp h with h | h
    · exact himport (by decide) h
    · exact himport (by decide) h
  · exact himport (by decide) h
  · rw [List.mem_singleton.mp h]
    exact nullFree_chars (by decide)

theorem nullFree_of_mem_exportLines {m : Module} {line : String} (h : line ∈ exportLines m) :
    NullFree line := by
  unfold exportLines at h
  split at h
  · cases h
  · simp only [List.mem_append, List.mem_cons, List.not_mem_nil, or_false, List.mem_map] at h
    rcases h with ((rfl | rfl) | ⟨n, -, rfl⟩) | rfl
    · decide
    · exact nullFree_chars (by decide)
    · simp only [nullFree_append, nullFree_stringLiteral, and_true]
      exact ⟨by decide, by decide⟩
    · decide

theorem nullFree_of_mem_rebuildLines {m : Module} {line : String}
    (hclasses : ∀ c ∈ m.classes, NullFree c.name) (h : line ∈ rebuildLines m) :
    NullFree line := by
  unfold rebuildLines at h
  split at h
  · cases h
  · rcases List.mem_append.mp h with h | h
    · simp only [List.mem_cons, List.not_mem_nil, or_false, or_self] at h
      rw [h]
      decide
    · obtain ⟨c, hc, rfl⟩ := List.mem_map.mp h
      exact nullFree_append.mpr ⟨hclasses c hc, nullFree_chars (by decide)⟩

/-- The text of a clean module has no null character. -/
theorem nullFree_moduleText {m : Module} (h : m.Clean) (hunit : NullFree m.unit) :
    NullFree (moduleText m) := by
  have hheader : NullFree s!"# Generated by restify from {m.unit}. Do not edit." :=
    nullFree_append.mpr
      ⟨nullFree_append.mpr ⟨nullFree_chars (by decide), hunit⟩, nullFree_chars (by decide)⟩
  have hlines : ∀ {α : Type} {xs : List α} {f : α → List String},
      (∀ x ∈ xs, ∀ line ∈ f x, NullFree line) → ∀ line ∈ xs.flatMap f, NullFree line := by
    intro α xs f hxs line hline
    obtain ⟨x, hx, hmem⟩ := List.mem_flatMap.mp hline
    exact hxs x hx line hmem
  refine nullFree_block ?_
  simp only [List.forall_mem_append]
  refine ⟨⟨⟨⟨⟨?_, hlines fun group hgroup => ?_⟩, fun _ => nullFree_of_mem_exportLines⟩,
    hlines fun c hc _ => nullFree_of_mem_classLines (h.classes c hc)⟩,
    hlines fun f hf _ => nullFree_of_mem_functionLines (h.functions f hf)⟩,
    fun _ => nullFree_of_mem_rebuildLines fun c hc => (h.classes c hc).name⟩
  · simp only [List.forall_mem_cons]
    exact ⟨Docs.nullFree_literal h.doc, hheader, by decide, nullFree_chars (by decide), nofun⟩
  · exact List.forall_mem_cons.mpr
      ⟨by decide, fun _ hline => nullFree_of_mem_importGroups hgroup hline⟩

end Layout
end Client
end EndpointDsl
