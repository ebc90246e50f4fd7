import EndpointDsl.Proofs.Wire.Fields
import EndpointDsl.Proofs.Wire.Loading
import Mathlib

/-!
When a field is read from the entry under its own wire name and from no other.

A field that finds no entry under its wire name looks for one under its attribute name.  That may
be the wire name of another field, whose entry it then takes.  Wire names and attribute names are
each known to differ among themselves, but nothing keeps the two apart, so the condition that they
are apart is needed, and it is enough.
-/

namespace EndpointDsl
namespace Wire

open Client (ClassDef FieldDef FieldType Fallback)

/-! ## Reading by wire name alone -/

/-- What a field gets from the entry under its wire name. -/
def ownField (s : Setting) (n : Nesting) (f : FieldDef) (entries : List (String × Value)) :
    Checked Given :=
  match lookup? f.wire entries with
  | some v => ((checkValue s n f.fieldType v).under (.key f.wire)).map fun w =>
      ⟨f.attr, some w, fallbackValue f⟩
  | none =>
    if f.fallback = .required then .error [⟨.missing, [.key f.wire]⟩]
    else .ok ⟨f.attr, none, fallbackValue f⟩

/-- The instance of an enum that a value makes as the payload of one variant. -/
def ownVariant (s : Setting) (n : Nesting) (c : ClassDef) (f : FieldDef) (v : Value) :
    Checked Value := do
  let payload ← (checkValue (s.within c) n f.fieldType v).under (.key f.wire)
  match payload with
  | .null =>
    if c.payloadRequired.contains f.attr then Checked.fault (.payloadMissing c.name f.attr)
    else .ok (.choice c.name f.attr .null)
  | payload => .ok (.choice c.name f.attr payload)

def wireNames (c : ClassDef) : List String := c.fields.map (·.wire)

/-- Whatever entries an object has under the wire names of a class, each field of the class, as it
is once the module is loaded, gets what its own entry gives. -/
def ReadsOwnEntries (c : ClassDef) : Prop :=
  ∀ (s : Setting) (n : Nesting) (entries : List (String × Value)),
    (∀ e ∈ entries, e.1 ∈ wireNames c) →
      ∀ f ∈ c.fields, checkField s n (settledField c f) entries = ownField s n f entries

/-- An object with one entry, under the wire name of a variant, and the bare wire name select the
variant. -/
def SelectsOwnVariant (c : ClassDef) : Prop :=
  ∀ (s : Setting) (n : Nesting), ∀ f ∈ c.fields,
    (∀ v, checkClass s n (settledClass c) (.object [(f.wire, v)]) = ownVariant s n c f v) ∧
      checkClass s n (settledClass c) (.text f.wire) = ownVariant s n c f .null

/-- No wire name of a class is the attribute name of another of its fields. -/
def NamesApart (c : ClassDef) : Prop :=
  ∀ f ∈ c.fields, ∀ g ∈ c.fields, f.attr = g.wire → f = g

variable {s : Setting} {n : Nesting} {c : ClassDef}

theorem ownField_of_lookup {f : FieldDef} {entries : List (String × Value)} {v : Value}
    (h : lookup? f.wire entries = some v) :
    ownField s n f entries = ((checkValue s n f.fieldType v).under (.key f.wire)).map fun w =>
      ⟨f.attr, some w, fallbackValue f⟩ := by
  rw [ownField, h]

theorem ownField_of_none {f : FieldDef} {entries : List (String × Value)}
    (h : lookup? f.wire entries = none) :
    ownField s n f entries = if f.fallback = .required then .error [⟨.missing, [.key f.wire]⟩]
      else .ok ⟨f.attr, none, fallbackValue f⟩ := by
  rw [ownField, h]

theorem checkField_eq_ownField (hapart : NamesApart c) {entries : List (String × Value)}
    (hkeys : ∀ e ∈ entries, e.1 ∈ wireNames c) {f : FieldDef} (hf : f ∈ c.fields) :
    checkField s n f entries = ownField s n f entries := by
  cases hwire : lookup? f.wire entries with
  | some v =>
    have hentry : entryFor? f entries = some (f.wire, v) := by rw [entryFor?, hwire]
    rw [checkField_of_entry hentry, ownField_of_lookup hwire]
  | none =>
    have hattr : lookup? f.attr entries = none := by
      rw [lookup?_eq_none_iff]
      intro hmem
      obtain ⟨e, he, hname⟩ := List.mem_map.mp hmem
      obtain ⟨g, hg, hwireg⟩ := List.mem_map.mp (hkeys e he)
      have hfg : f = g := hapart f hf g hg (hname.symm.trans hwireg.symm)
      rw [lookup?_eq_none_iff] at hwire
      exact hwire (List.mem_map.mpr ⟨e, he, by rw [hfg]; exact hwireg.symm⟩)
    rw [checkField_of_none (entryFor?_eq_none_iff.mpr ⟨hwire, hattr⟩), ownField_of_none hwire]

/-! ## Values that no type takes -/

/-- A value that does not fit a type. -/
def misfit : FieldType → Value
  | .list _ => .object []
  | .optional inner => misfit inner
  | _ => .list []

theorem misfit_ne_null (t : FieldType) : misfit t ≠ .null := by
  induction t with
  | optional inner ih => exact ih
  | list item => exact fun h => nomatch h
  | scalar kind => exact fun h => nomatch h
  | unit => exact fun h => nomatch h
  | model name => exact fun h => nomatch h

theorem checkValue_misfit (t : FieldType) :
    ∃ fault, checkValue s n t (misfit t) = Checked.fault fault := by
  induction t with
  | scalar kind =>
    have hcheck : ∃ fault, kind.check s.origin (.list []) = .error fault := by
      cases kind <;> exact ⟨_, rfl⟩
    obtain ⟨fault, hfault⟩ := hcheck
    exact ⟨fault, checkValue_scalar_of_error hfault⟩
  | list item => exact ⟨_, checkValue_list_of_ne fun items h => nomatch h⟩
  | optional inner ih =>
    obtain ⟨fault, hfault⟩ := ih
    exact ⟨fault, (checkValue_optional (misfit_ne_null inner)).trans hfault⟩
  | unit => exact ⟨_, checkValue_unit_of_ne fun h => nomatch h⟩
  | model name =>
    rw [checkValue]
    cases s.module.class? name with
    | none => exact ⟨.modelWanted, rfl⟩
    | some cls =>
      cases n.enter? s.readers name with
      | none => exact ⟨.nestedTooDeep, rfl⟩
      | some inner =>
        refine ⟨.modelWanted, ?_⟩
        show checkClass s inner cls (.list []) = _
        rw [checkClass]
        all_goals
          intros
          contradiction

/-! ## Structures -/

theorem lookup?_singleton_self {key : String} {v : Value} : lookup? key [(key, v)] = some v := by
  rw [lookup?, if_pos rfl]

theorem lookup?_singleton_of_ne {key other : String} {v : Value} (h : other ≠ key) :
    lookup? key [(other, v)] = none := by
  rw [lookup?, if_neg h, lookup?]

/-- An entry that does not fit a field is a fault of the field, at the key of the entry. -/
theorem checkField_misfit {f : FieldDef} {entries : List (String × Value)} {key : String}
    (h : entryFor? f entries = some (key, misfit f.fieldType)) :
    ∃ fault, checkField s n f entries = .error [⟨fault, [.key key]⟩] := by
  obtain ⟨fault, hfault⟩ := checkValue_misfit (s := s) (n := n) f.fieldType
  exact ⟨fault, by rw [checkField_of_entry h, hfault]; rfl⟩

/-- A value that a field declares to fall back to is no builder method. -/
theorem fallbackValue_ne_builder {f : FieldDef} (h : f.Lawful) (className attr : String) :
    fallbackValue f ≠ .builder className attr := by
  unfold fallbackValue
  cases hfallback : f.fallback with
  | required | absent => exact nofun
  | zero z => cases z <;> exact nofun
  | builder owner name => exact absurd hfallback (h.declared owner name)

/-- A field that a builder method hides falls back to the method while it is not given. -/
theorem builderApart_of_reads (hlawful : ∀ f ∈ c.fields, f.Lawful) (h : ReadsOwnEntries c) :
    BuilderApart c := by
  rintro ⟨hbuilder, f, hf, g, hg, hname⟩
  have hread := h ⟨default, .program, []⟩ default [] (fun e he => nomatch he) f hf
  rw [settledField_of_builderName hbuilder hg hname, checkField_of_none rfl, ownField_of_none rfl,
    if_neg nofun] at hread
  by_cases hrequired : f.fallback = .required
  · rw [if_pos hrequired] at hread
    cases hread
  · rw [if_neg hrequired] at hread
    have hvalue := congrArg Given.fallback (Except.ok.inj hread)
    exact fallbackValue_ne_builder (hlawful f hf) _ _ hvalue.symm

theorem namesApart_of_reads (hwires : (wireNames c).Nodup) (hbuilder : BuilderApart c)
    (h : ReadsOwnEntries c) : NamesApart c := by
  intro f hf g hg hname
  by_contra hne
  -- The entry of `g` fits nothing, so that `f` cannot take it without a fault.
  have hwire : f.wire ≠ g.wire := fun heq => hne (List.inj_on_of_nodup_map hwires hf hg heq)
  have hread := h ⟨default, .program, []⟩ default [(g.wire, misfit f.fieldType)] (fun e he => by
    rw [List.mem_singleton.mp he]
    exact List.mem_map.mpr ⟨g, hg, rfl⟩) f hf
  rw [settledField_of_builderApart hbuilder hf] at hread
  have hnone : lookup? f.wire [(g.wire, misfit f.fieldType)] = none :=
    lookup?_singleton_of_ne hwire.symm
  have hentry : entryFor? f [(g.wire, misfit f.fieldType)] = some (f.attr, misfit f.fieldType) := by
    rw [entryFor?, hnone, hname, lookup?_singleton_self]
    rfl
  obtain ⟨fault, hfault⟩ := checkField_misfit (s := ⟨default, .program, []⟩) (n := default) hentry
  rw [hfault, ownField_of_none hnone] at hread
  by_cases hrequired : f.fallback = .required
  · rw [if_pos hrequired] at hread
    simp only [Except.error.injEq, List.cons.injEq, Detail.mk.injEq, Step.key.injEq,
      and_true] at hread
    exact hwire (hread.2.symm.trans hname)
  · rw [if_neg hrequired] at hread
    cases hread

theorem readsOwnEntries_iff (hwires : (wireNames c).Nodup) (hlawful : ∀ f ∈ c.fields, f.Lawful) :
    ReadsOwnEntries c ↔ NamesApart c ∧ BuilderApart c := by
  constructor
  · intro h
    have hbuilder := builderApart_of_reads hlawful h
    exact ⟨namesApart_of_reads hwires hbuilder h, hbuilder⟩
  · intro h s n entries hkeys f hf
    rw [settledField_of_builderApart h.2 hf]
    exact checkField_eq_ownField h.1 hkeys hf

/-! ## Enums -/

/-- Whether an entry under a name is one that a field may take. -/
def answersTo (name : String) (f : FieldDef) : Bool := f.wire == name || f.attr == name

theorem answersTo_iff {name : String} {f : FieldDef} :
    answersTo name f = true ↔ f.wire = name ∨ f.attr = name := by
  simp [answersTo]

theorem entryFor?_singleton_of_answers {name : String} {v : Value} {f : FieldDef}
    (h : answersTo name f = true) : entryFor? f [(name, v)] = some (name, v) := by
  by_cases hwire : f.wire = name
  · rw [entryFor?, hwire, lookup?_singleton_self]
  · have hattr : f.attr = name := (answersTo_iff.mp h).resolve_left hwire
    rw [entryFor?, lookup?_singleton_of_ne (Ne.symm hwire), hattr, lookup?_singleton_self]
    rfl

theorem entryFor?_singleton_of_not {name : String} {v : Value} {f : FieldDef}
    (h : answersTo name f = false) : entryFor? f [(name, v)] = none := by
  have hnot : ¬ (f.wire = name ∨ f.attr = name) := by
    rw [← answersTo_iff, h]
    exact Bool.false_ne_true
  exact entryFor?_eq_none_iff.mpr ⟨lookup?_singleton_of_ne fun h => hnot (Or.inl h.symm),
    lookup?_singleton_of_ne fun h => hnot (Or.inr h.symm)⟩

/-- A variant that was not given. -/
def notGiven (f : FieldDef) : Given := ⟨f.attr, none, .null⟩

theorem fallbackValue_absent {f : FieldDef} (h : f.fallback = .absent) :
    fallbackValue f = .null := by
  rw [fallbackValue, h]

theorem checkField_not {name : String} {v : Value} {f : FieldDef} (hfallback : f.fallback = .absent)
    (h : answersTo name f = false) : checkField s n f [(name, v)] = .ok (notGiven f) := by
  rw [checkField_of_none (entryFor?_singleton_of_not h), if_neg (by rw [hfallback]; exact nofun),
    fallbackValue_absent hfallback]
  rfl

theorem both_ok {α β : Type} {a : α} {y : Checked β} : Checked.both (.ok a) y = y.map (a, ·) := by
  cases y with
  | error d => rfl
  | ok b => rfl

theorem checkFields_not {name : String} {v : Value} {fields : List FieldDef}
    (hfallback : ∀ f ∈ fields, f.fallback = .absent)
    (h : ∀ f ∈ fields, answersTo name f = false) :
    checkFields s n fields [(name, v)] = .ok (fields.map notGiven) := by
  rw [checkFields_eq_ok_iff, List.forall₂_map_right_iff, List.forall₂_same]
  exact fun f hf => checkField_not (hfallback f hf) (h f hf)

/-- One variant answers to the name, those before and after it do not. -/
theorem checkFields_one {name : String} {v : Value} {f : FieldDef} {before after : List FieldDef}
    (hfallback : ∀ g ∈ before ++ f :: after, g.fallback = .absent)
    (hf : answersTo name f = true) (hothers : ∀ g ∈ before ++ after, answersTo name g = false) :
    checkFields s n (before ++ f :: after) [(name, v)] =
      ((checkValue s n f.fieldType v).under (.key name)).map fun w =>
        before.map notGiven ++ ⟨f.attr, some w, .null⟩ :: after.map notGiven := by
  induction before with
  | nil =>
    have hrest : checkFields s n after [(name, v)] = .ok (after.map notGiven) :=
      checkFields_not (fun g hg => hfallback g (List.mem_cons_of_mem f hg)) hothers
    have hnull := fallbackValue_absent (hfallback f List.mem_cons_self)
    rw [List.nil_append, checkFields_cons, hrest,
      checkField_of_entry (entryFor?_singleton_of_answers hf), hnull]
    cases (checkValue s n f.fieldType v).under (.key name) with
    | error d => rfl
    | ok w => rfl
  | cons g rest ih =>
    have hg : checkField s n g [(name, v)] = .ok (notGiven g) :=
      checkField_not (hfallback g List.mem_cons_self) (hothers g List.mem_cons_self)
    rw [List.cons_append, checkFields_cons, hg, both_ok,
      ih (fun h hh => hfallback h (List.mem_cons_of_mem g hh))
        (fun h hh => hothers h (List.mem_cons_of_mem g hh))]
    cases (checkValue s n f.fieldType v).under (.key name) with
    | error d => rfl
    | ok w => rfl

theorem filterMap_notGiven (fields : List FieldDef) :
    (fields.map notGiven).filterMap (fun g => g.value.map (g.attr, ·)) = [] := by
  rw [List.filterMap_map, List.filterMap_eq_nil_iff]
  exact fun f _ => rfl

theorem assemble_one {f : FieldDef} {w : Value} {before after : List FieldDef}
    (henum : c.base = .enum) :
    assemble c (before.map notGiven ++ ⟨f.attr, some w, .null⟩ :: after.map notGiven) =
      match w with
      | .null =>
        if c.payloadRequired.contains f.attr then Checked.fault (.payloadMissing c.name f.attr)
        else .ok (.choice c.name f.attr .null)
      | payload => .ok (.choice c.name f.attr payload) := by
  have hchosen : (before.map notGiven ++ ⟨f.attr, some w, .null⟩ :: after.map notGiven).filterMap
      (fun g => g.value.map (g.attr, ·)) = [(f.attr, w)] := by
    rw [List.filterMap_append, filterMap_notGiven, List.nil_append, List.filterMap_cons]
    show (f.attr, w) :: _ = _
    rw [filterMap_notGiven]
  rewrite [assemble, if_pos henum, choiceOf, hchosen]
  rfl

theorem checkFields_assemble (hlawful : c.Lawful) (henum : c.base = .enum) (hapart : NamesApart c)
    {f : FieldDef} (hf : f ∈ c.fields) (v : Value) :
    checkFields (s.within c) n c.fields [(f.wire, v)] >>= assemble c = ownVariant s n c f v := by
  obtain ⟨before, after, hfields⟩ := List.append_of_mem hf
  have hfallback : ∀ g ∈ before ++ f :: after, g.fallback = .absent := by
    intro g hg
    rw [← hfields] at hg
    exact (hlawful.variants henum g hg).1
  have hothers : ∀ g ∈ before ++ after, answersTo f.wire g = false := by
    intro g hg
    have hmem : g ∈ c.fields := by
      rw [hfields]
      rcases List.mem_append.mp hg with h | h
      · exact List.mem_append_left _ h
      · exact List.mem_append_right _ (List.mem_cons_of_mem f h)
    have hne : g ≠ f := by
      have hnodup : (before ++ f :: after).Nodup := by
        rw [← hfields]
        exact List.Nodup.of_map _ hlawful.wires
      intro heq
      rw [List.nodup_middle, List.nodup_cons] at hnodup
      exact hnodup.1 (heq ▸ hg)
    rw [← Bool.not_eq_true, answersTo_iff]
    rintro (hwire | hattr)
    · exact hne (List.inj_on_of_nodup_map hlawful.wires hmem hf hwire)
    · exact hne (hapart g hmem f hf hattr)
  rw [hfields, checkFields_one hfallback (answersTo_iff.mpr (Or.inl rfl)) hothers, ownVariant]
  cases (checkValue (s.within c) n f.fieldType v).under (.key f.wire) with
  | error d => rfl
  | ok w => exact assemble_one henum

theorem checkValue_nullable {t : FieldType} (h : t.Nullable) :
    checkValue s n t .null = .ok .null := by
  cases t with
  | optional inner => exact checkValue_null
  | unit => exact checkValue_unit
  | scalar kind => exact h.elim
  | list item => exact h.elim
  | model name => exact h.elim

theorem checkField_null {name : String} {f : FieldDef} (hfallback : f.fallback = .absent)
    (hnullable : f.fieldType.Nullable) :
    checkField s n f [(name, .null)] =
      .ok ⟨f.attr, if answersTo name f then some .null else none, .null⟩ := by
  cases h : answersTo name f with
  | false => exact checkField_not hfallback h
  | true =>
    rw [checkField_of_entry (entryFor?_singleton_of_answers h), checkValue_nullable hnullable,
      fallbackValue_absent hfallback]
    rfl

/-- Two variants that answer to one name cannot be told apart by it. -/
theorem checkClass_text_of_two (hlawful : c.Lawful) (henum : c.base = .enum) {name : String}
    {f g : FieldDef} (hf : f ∈ c.fields) (hg : g ∈ c.fields) (hne : f ≠ g)
    (hanswers : answersTo name f = true ∧ answersTo name g = true) :
    ∃ count, checkClass s n c (.text name) = Checked.fault (.variantCount c.name count) := by
  have hgiven : checkFields (s.within c) n c.fields [(name, .null)] =
      .ok (c.fields.map fun h =>
        ⟨h.attr, if answersTo name h then some .null else none, .null⟩) := by
    rw [checkFields_eq_ok_iff, List.forall₂_map_right_iff, List.forall₂_same]
    intro h hh
    have hvariant := (hlawful.variants henum h hh).1
    exact checkField_null hvariant ((hlawful.fields h hh).absent hvariant)
  rw [checkClass_text henum, hgiven]
  show ∃ count, assemble c _ = _
  rw [assemble, if_pos henum, choiceOf, List.filterMap_map]
  have hmem : ∀ h ∈ c.fields, answersTo name h = true → (h.attr, Value.null) ∈
      c.fields.filterMap ((fun given : Given => given.value.map (given.attr, ·)) ∘
        fun h : FieldDef => ⟨h.attr, if answersTo name h then some .null else none, .null⟩) := by
    intro h hh hanswer
    exact List.mem_filterMap.mpr ⟨h, hh, by simp [hanswer]⟩
  split
  · next attr payload hsingle =>
    have hf' := hmem f hf hanswers.1
    have hg' := hmem g hg hanswers.2
    rw [hsingle, List.mem_singleton] at hf' hg'
    have hattr : f.attr = g.attr := congrArg Prod.fst (hf'.trans hg'.symm)
    exact absurd (List.inj_on_of_nodup_map hlawful.attrs hf hg hattr) hne
  · exact ⟨_, rfl⟩

theorem ownVariant_null {f : FieldDef} (h : f.fieldType.Nullable) :
    ownVariant s n c f .null =
      if c.payloadRequired.contains f.attr then Checked.fault (.payloadMissing c.name f.attr)
      else .ok (.choice c.name f.attr .null) := by
  rw [ownVariant, checkValue_nullable h]
  rfl

theorem selectsOwnVariant_iff (hlawful : c.Lawful) (henum : c.base = .enum) :
    SelectsOwnVariant c ↔ NamesApart c := by
  rw [SelectsOwnVariant, settledClass_of_plain (hlawful.plain henum)]
  constructor
  · intro h f hf g hg hname
    by_contra hne
    have hselect := (h ⟨default, .program, []⟩ default g hg).2
    obtain ⟨count, hcount⟩ := checkClass_text_of_two hlawful henum hf hg hne
      ⟨answersTo_iff.mpr (Or.inr hname), answersTo_iff.mpr (Or.inl rfl)⟩
    have hvariant := (hlawful.variants henum g hg).1
    rw [hcount, ownVariant_null ((hlawful.fields g hg).absent hvariant)] at hselect
    by_cases hrequired : c.payloadRequired.contains g.attr = true
    · rw [if_pos hrequired] at hselect
      cases hselect
    · rw [if_neg hrequired] at hselect
      cases hselect
  · intro h s n f hf
    refine ⟨fun v => ?_, ?_⟩
    · rw [checkClass_object]
      exact checkFields_assemble hlawful henum h hf v
    · rw [checkClass_text henum]
      exact checkFields_assemble hlawful henum h hf .null

/-- Once a compiled module is loaded, exactly when the names of a class are apart and no attribute is
the name of a builder method does every field of the class get what its own entry gives; and exactly
when the names are apart does a variant of an enum answer to its wire name alone. -/
theorem own_entries_iff_names_apart {text unit : String} {compiled : Compilation}
    {module loaded : Client.Module} (hcompiled : compile text unit = .ok compiled)
    (hmodule : module ∈ compiled.modules) (hload : load module = .ok loaded)
    (hc : c ∈ module.classes) :
    loaded.class? c.name = some (settledClass c) ∧
      (ReadsOwnEntries c ↔ NamesApart c ∧ BuilderApart c) ∧
      (c.base = .enum → (SelectsOwnVariant c ↔ NamesApart c)) := by
  have hlawful := lawful_of_compile hcompiled hmodule hc
  exact ⟨class?_of_load hcompiled hmodule hc hload,
    readsOwnEntries_iff hlawful.wires hlawful.fields, selectsOwnVariant_iff hlawful⟩

/-! ## A structure whose names cross -/

/-- A name that is no reserved word is its own attribute name. -/
theorem attributeName_eq_self {name : String} (hstem : Name.attributeStem name = name)
    (hfree : (Name.isReserved name || "model_".toList.isPrefixOf name.toList) = false) :
    Name.attributeName name = name := by
  rw [Name.attributeName, hstem]
  exact if_neg (by rw [hfree]; exact Bool.false_ne_true)

theorem attributeName_a : Name.attributeName "a" = "a" :=
  attributeName_eq_self (by cbv) (by cbv)

theorem attributeName_b : Name.attributeName "b" = "b" :=
  attributeName_eq_self (by cbv) (by cbv)

theorem nodup_attributeNames_a_b :
    [Name.attributeName "a", Name.attributeName "b"].Nodup := by
  rw [attributeName_a, attributeName_b]
  decide

/-- The first field goes by the name of the second one on the wire. -/
def crossedText : String :=
  "[pub A:\x7bPUT \"/t\"=>\x7bstruct R\x7b[\"b\"] a:?i32,[\"c\"] b:?i32\x7d\x7d\x7d]"

def crossedField (name wire : String) (offset : Nat) : Schema.Field :=
  { name, type := .optional (.primitive "i32"),
    attributes := [⟨.rename wire, .field, Schema.onFirstLine offset⟩],
    location := Schema.onFirstLine (offset + 5) }

def crossedStruct : Schema.Struct :=
  { name := "R", role := none, fields := [crossedField "a" "b" 29, crossedField "b" "c" 42],
    attributes := [], location := Schema.onFirstLine 19, capability := .both }

theorem crossed_built : (Tree.parse crossedText "").errors = [] ∧
    (Schema.build (Tree.parse crossedText "").source).errors = [] ∧
    (Schema.build (Tree.parse crossedText "").source).schema.endpoints =
      [Schema.soleEndpoint (.struct { crossedStruct with capability := {} })] := by
  cbv

theorem crossed_literals : Lexer.LiteralsNullFree crossedText "" := by
  have hlexemes : (Lexer.tokenize crossedText "").map (fun list =>
      (list.tokens.map (·.lexeme)).filterMap Lexeme.literal?) = .ok ["/t", "b", "c"] := by
    cbv
  exact Lexer.literalsNullFree_of_tokenize hlexemes (by decide)

theorem crossedStruct_wellFormed : crossedStruct.WellFormed where
  attributes := ⟨by simp [crossedStruct], by simp [crossedStruct], by simp [crossedStruct]⟩
  fieldNames := by decide
  members := by
    intro f hf
    simp only [crossedStruct, List.mem_cons, List.not_mem_nil, or_false] at hf
    rcases hf with rfl | rfl
    · exact ⟨by decide, by decide, by decide⟩
    · exact ⟨by decide, by decide, by decide⟩
  defaults := by
    intro f hf
    simp only [crossedStruct, List.mem_cons, List.not_mem_nil, or_false] at hf
    rcases hf with rfl | rfl
    · exact ⟨by decide, fun _ => ⟨rfl, trivial⟩⟩
    · exact ⟨by decide, fun _ => ⟨rfl, trivial⟩⟩
  errorOnce := by decide
  errorDecoded := by decide
  wires := by decide
  attrs := nodup_attributeNames_a_b

/-- The class of the structure. -/
def crossedClass (c : ClassDef) : Prop :=
  c.base = .both ∧ c.builder = false ∧ c.fields =
    [⟨"a", .optional (.scalar .int), "b", .absent⟩, ⟨"b", .optional (.scalar .int), "c", .absent⟩]

theorem crossed_fieldDefs (className : String → Client.Gen String) :
    (Schema.resolveStruct crossedStruct).fields.mapM (Client.fieldDef className "R") = .ok
      [⟨"a", .optional (.scalar .int), "b", .absent⟩,
        ⟨"b", .optional (.scalar .int), "c", .absent⟩] := by
  have hdefs : (Schema.resolveStruct crossedStruct).fields.mapM (Client.fieldDef className "R") =
      .ok [⟨Name.attributeName "a", .optional (.scalar .int), "b", .absent⟩,
        ⟨Name.attributeName "b", .optional (.scalar .int), "c", .absent⟩] := rfl
  rw [hdefs, attributeName_a, attributeName_b]

theorem classLoads_of_crossed (h : crossedClass c) : ClassLoads c := by
  obtain ⟨-, hbuilder, hfields⟩ := h
  refine classLoads_of_plain hbuilder ?_ ?_
  · rw [hidesClass, hfields]
    rfl
  · rw [hfields]
    decide

theorem crossed_compiles : ∃ compiled module c, compile crossedText "" = .ok compiled ∧
    module ∈ compiled.modules ∧ c ∈ module.classes ∧ load module = .ok (settled module) ∧
    crossedClass c := by
  obtain ⟨compiled, module, c, className, hcompiled, hok, -, hmodules, hclasses, hclass⟩ :=
    exists_sole_item (j := .struct crossedStruct) crossed_built rfl rfl crossedStruct_wellFormed
  have hcrossed : crossedClass c := by
    obtain ⟨base, fields, hbase, hfields, rfl⟩ := Client.structClass_eq_ok_iff.mp hclass
    refine ⟨(Except.ok.inj hbase).symm, rfl, ?_⟩
    exact Except.ok.inj (hfields.symm.trans (crossed_fieldDefs className))
  have hmodule : module ∈ compiled.modules := hmodules ▸ List.mem_singleton_self module
  have hload := load_of_compile hcompiled hok crossed_literals oneLine_empty hmodule
    (hclasses ▸ List.forall_mem_singleton.mpr (classLoads_of_crossed hcrossed))
  exact ⟨compiled, module, c, hcompiled, hmodule, hclasses ▸ List.mem_singleton_self c, hload,
    hcrossed⟩

/-- The second field takes the entry of the first, under whose wire name it is known as well. -/
theorem crossed_names_share_entry : ∃ compiled module loaded c,
    compile crossedText "" = .ok compiled ∧ module ∈ compiled.modules ∧
    load module = .ok loaded ∧ c ∈ module.classes ∧ c.base.canDecode = true ∧
    wireNames c = ["b", "c"] ∧
    decode loaded (settledClass c) (.object [("b", .int 7)]) =
      .ok (.model c.name [("a", .int 7), ("b", .int 7)]) := by
  obtain ⟨compiled, module, c, hcompiled, hmodule, hc, hload, hbase, hbuilder, hfields⟩ :=
    crossed_compiles
  refine ⟨compiled, module, _, c, hcompiled, hmodule, hload, hc, by rw [hbase]; rfl, ?_, ?_⟩
  · rw [wireNames, hfields]
    rfl
  · rw [settledClass_of_plain hbuilder]
    show checkClass _ _ c _ = _
    have hint : ∀ s n, checkValue s n (.optional (.scalar .int)) (.int 7) = .ok (.int 7) := by
      intro s n
      rw [checkValue_optional (v := .int 7) nofun, checkValue_scalar_eq_ok_iff]
      rfl
    have hgiven : ∀ s n, checkFields s n c.fields [("b", .int 7)] =
        .ok [⟨"a", some (.int 7), .null⟩, ⟨"b", some (.int 7), .null⟩] := by
      intro s n
      rw [hfields, checkFields_eq_ok_iff]
      refine .cons ?_ (.cons ?_ .nil)
      · rw [checkField_of_entry (show entryFor? _ _ = some ("b", .int 7) from rfl), hint]
        rfl
      · rw [checkField_of_entry (show entryFor? _ _ = some ("b", .int 7) from rfl), hint]
        rfl
    rw [checkClass_object, hgiven]
    show assemble c _ = _
    rw [assemble, if_neg (by rw [hbase]; exact nofun)]
    rfl

/-- So the structure does not read its own entries only. -/
theorem crossed_names_not_own : ∃ compiled module loaded c,
    compile crossedText "" = .ok compiled ∧ module ∈ compiled.modules ∧
    load module = .ok loaded ∧ c ∈ module.classes ∧
    (ReadsOwnEntries c ↔ NamesApart c ∧ BuilderApart c) ∧ ¬ ReadsOwnEntries c := by
  obtain ⟨compiled, module, c, hcompiled, hmodule, hc, hload, -, -, hfields⟩ := crossed_compiles
  obtain ⟨-, hiff, -⟩ := own_entries_iff_names_apart hcompiled hmodule hload hc
  refine ⟨compiled, module, _, c, hcompiled, hmodule, hload, hc, hiff, fun hreads => ?_⟩
  have hapart := (hiff.mp hreads).1
  rw [NamesApart, hfields] at hapart
  exact absurd (hapart _ (List.mem_cons_of_mem _ List.mem_cons_self) _ List.mem_cons_self rfl)
    (by decide)

end Wire
end EndpointDsl
