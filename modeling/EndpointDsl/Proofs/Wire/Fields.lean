import EndpointDsl.Proofs.Lists
import EndpointDsl.Wire.Decode

/-!
Reading the fields of an object, one by one.

The readings of the fields are independent of each other: together they succeed exactly when each
of them does, and a fault of one is a fault of all.
-/

namespace EndpointDsl
namespace Wire

open Client (ClassDef FieldDef FieldType)

variable {s : Setting} {n : Nesting}

theorem Checked.both_eq_ok_iff {α β : Type} {x : Checked α} {y : Checked β} {p : α × β} :
    Checked.both x y = .ok p ↔ x = .ok p.1 ∧ y = .ok p.2 := by
  obtain ⟨a, b⟩ := p
  cases x with
  | error d => cases y <;> simp [Checked.both]
  | ok a' => cases y <;> simp [Checked.both]

theorem checkFields_nil {entries : List (String × Value)} :
    checkFields s n [] entries = .ok [] := by
  rw [checkFields]

theorem checkFields_cons {f : FieldDef} {rest : List FieldDef} {entries : List (String × Value)} :
    checkFields s n (f :: rest) entries =
      (Checked.both (checkField s n f entries) (checkFields s n rest entries)).map
        fun p => p.1 :: p.2 := by
  rw [checkFields]

theorem checkFields_eq_ok_iff {fields : List FieldDef} {entries : List (String × Value)}
    {given : List Given} :
    checkFields s n fields entries = .ok given ↔
      List.Forall₂ (fun f g => checkField s n f entries = .ok g) fields given := by
  induction fields generalizing given with
  | nil =>
    rw [checkFields_nil, List.forall₂_nil_left_iff]
    exact ⟨fun h => (Except.ok.inj h).symm, fun h => by rw [h]⟩
  | cons f rest ih =>
    rw [checkFields_cons, map_eq_ok_iff, List.forall₂_cons_left_iff]
    constructor
    · intro h
      obtain ⟨⟨g, gs⟩, hboth, rfl⟩ := h
      obtain ⟨hg, hgs⟩ := Checked.both_eq_ok_iff.mp hboth
      exact ⟨g, gs, hg, ih.mp hgs, rfl⟩
    · intro h
      obtain ⟨g, gs, hg, hgs, rfl⟩ := h
      exact ⟨(g, gs), Checked.both_eq_ok_iff.mpr ⟨hg, ih.mpr hgs⟩, rfl⟩

/-! ## Values of each type -/

theorem checkValue_scalar_of_error {kind : Schema.Scalar} {v : Value} {fault : Fault}
    (h : kind.check s.origin v = .error fault) :
    checkValue s n (.scalar kind) v = Checked.fault fault := by
  rw [checkValue, h]

theorem checkValue_scalar_eq_ok_iff {kind : Schema.Scalar} {v w : Value} :
    checkValue s n (.scalar kind) v = .ok w ↔ kind.check s.origin v = .ok w := by
  cases h : kind.check s.origin v with
  | error fault =>
    rw [checkValue_scalar_of_error h]
    constructor <;> exact fun h => nomatch h
  | ok w' =>
    have hvalue : checkValue s n (.scalar kind) v = .ok w' := by rw [checkValue, h]
    rw [hvalue]
    constructor
    · intro h; cases h; rfl
    · intro h; cases h; rfl

theorem checkValue_null {t : FieldType} : checkValue s n (.optional t) .null = .ok .null := by
  rw [checkValue]

theorem checkValue_optional {t : FieldType} {v : Value} (h : v ≠ .null) :
    checkValue s n (.optional t) v = checkValue s n t v := by
  rw [checkValue]
  exact h

theorem checkValue_unit : checkValue s n .unit .null = .ok .null := by
  rw [checkValue]

theorem checkValue_unit_of_ne {v : Value} (h : v ≠ .null) :
    checkValue s n .unit v = Checked.fault .nullWanted := by
  rw [checkValue]
  exact h

theorem checkValue_list {t : FieldType} {items : List Value} :
    checkValue s n (.list t) (.list items) = (checkItems s n t 0 items).map .list := by
  rw [checkValue]

theorem checkValue_list_of_ne {t : FieldType} {v : Value} (h : ∀ items, v ≠ .list items) :
    checkValue s n (.list t) v = Checked.fault .listWanted := by
  rw [checkValue]
  exact h

theorem checkValue_model {name : String} {c : ClassDef} {inner : Nesting} {v : Value}
    (hc : s.module.class? name = some c) (hinner : n.enter? s.readers name = some inner) :
    checkValue s n (.model name) v = checkClass s inner c v := by
  rw [checkValue, hc, hinner]

theorem checkValue_model_eq_ok {name : String} {v w : Value}
    (h : checkValue s n (.model name) v = .ok w) :
    ∃ c inner, s.module.class? name = some c ∧ n.enter? s.readers name = some inner ∧
      checkClass s inner c v = .ok w := by
  rw [checkValue] at h
  cases hc : s.module.class? name with
  | none => rw [hc] at h; cases h
  | some c =>
    cases hinner : n.enter? s.readers name with
    | none => rw [hc, hinner] at h; cases h
    | some inner =>
      rw [hc, hinner] at h
      exact ⟨c, inner, rfl, rfl, h⟩

/-! ## Instances of each class -/

theorem checkClass_object {c : ClassDef} {entries : List (String × Value)} :
    checkClass s n c (.object entries) =
      checkFields (s.within c) n c.fields entries >>= assemble c := by
  rw [checkClass]

theorem checkClass_text {c : ClassDef} {name : String} (henum : c.base = .enum) :
    checkClass s n c (.text name) =
      checkFields (s.within c) n c.fields [(name, .null)] >>= assemble c := by
  rw [checkClass, if_pos henum]

theorem checkItems_nil {t : FieldType} {index : Nat} : checkItems s n t index [] = .ok [] := by
  rw [checkItems]

theorem Checked.under_eq_ok_iff {α : Type} {step : Step} {x : Checked α} {a : α} :
    x.under step = .ok a ↔ x = .ok a := by
  cases x with
  | error d => simp [Checked.under]
  | ok b => simp [Checked.under]

theorem checkItems_eq_ok_iff {t : FieldType} {index : Nat} {items ws : List Value} :
    checkItems s n t index items = .ok ws ↔
      List.Forall₂ (fun v w => checkValue s n t v = .ok w) items ws := by
  induction items generalizing index ws with
  | nil =>
    rw [checkItems_nil, List.forall₂_nil_left_iff]
    exact ⟨fun h => (Except.ok.inj h).symm, fun h => by rw [h]⟩
  | cons v rest ih =>
    rw [checkItems, map_eq_ok_iff, List.forall₂_cons_left_iff]
    constructor
    · intro h
      obtain ⟨⟨w, ws⟩, hboth, rfl⟩ := h
      obtain ⟨hw, hws⟩ := Checked.both_eq_ok_iff.mp hboth
      exact ⟨w, ws, Checked.under_eq_ok_iff.mp hw, ih.mp hws, rfl⟩
    · intro h
      obtain ⟨w, ws, hw, hws, rfl⟩ := h
      exact ⟨(w, ws), Checked.both_eq_ok_iff.mpr ⟨Checked.under_eq_ok_iff.mpr hw, ih.mpr hws⟩, rfl⟩

/-! ## One field -/

/-- A field reads the value that its entry holds. -/
theorem checkField_of_entry {f : FieldDef} {entries : List (String × Value)} {key : String}
    {v : Value}
    (h : entryFor? f entries = some (key, v)) :
    checkField s n f entries = ((checkValue s n f.fieldType v).under (.key key)).map fun w =>
      ⟨f.attr, some w, fallbackValue f⟩ := by
  rw [checkField]
  split
  · next key' v' h' =>
    rw [h] at h'
    cases h'
    rfl
  · next h' => rw [h] at h'; cases h'

theorem checkField_of_none {f : FieldDef} {entries : List (String × Value)}
    (h : entryFor? f entries = none) :
    checkField s n f entries =
      if f.fallback = .required then .error [⟨.missing, [.key f.wire]⟩]
      else .ok ⟨f.attr, none, fallbackValue f⟩ := by
  rw [checkField]
  split
  · next h' => rw [h] at h'; cases h'
  · rfl

theorem entryFor?_eq_none_iff {f : FieldDef} {entries : List (String × Value)} :
    entryFor? f entries = none ↔ lookup? f.wire entries = none ∧ lookup? f.attr entries = none := by
  unfold entryFor?
  cases lookup? f.wire entries with
  | some v => simp
  | none => simp

/-- Whatever a field gets, it gets under its attribute name. -/
theorem attr_of_checkField {f : FieldDef} {entries : List (String × Value)} {given : Given}
    (h : checkField s n f entries = .ok given) : given.attr = f.attr := by
  cases hentry : entryFor? f entries with
  | some e =>
    rw [checkField_of_entry hentry] at h
    obtain ⟨w, -, rfl⟩ := map_eq_ok_iff.mp h
    rfl
  | none =>
    rw [checkField_of_none hentry] at h
    split at h
    · cases h
    · cases h
      rfl

/-! ## Fields that can be read -/

theorem exists_checkFields {fields : List FieldDef} {entries : List (String × Value)}
    (h : ∀ f ∈ fields, ∃ given, checkField s n f entries = .ok given) :
    ∃ given, checkFields s n fields entries = .ok given := by
  induction fields with
  | nil => exact ⟨[], checkFields_nil⟩
  | cons f rest ih =>
    obtain ⟨⟨first, hfirst⟩, hrest⟩ := List.forall_mem_cons.mp h
    obtain ⟨given, hgiven⟩ := ih hrest
    exact ⟨first :: given, by rw [checkFields_cons, hfirst, hgiven]; rfl⟩

/-- An object from which every field gets its value is read as the instance with these values. -/
theorem checkClass_of_checkField {c : ClassDef} {entries : List (String × Value)}
    {value : FieldDef → Value} (hbase : c.base ≠ .enum)
    (h : ∀ f ∈ c.fields, ∃ given, checkField s n f entries = .ok given ∧
      given.value.getD given.fallback = value f) :
    checkClass s n c (.object entries) =
      .ok (.model c.name (c.fields.map fun f => (f.attr, value f))) := by
  have hwithin : s.within c = s := if_neg hbase
  obtain ⟨given, hgiven⟩ := exists_checkFields fun f hf => (h f hf).imp fun _ hg => hg.1
  have hattrs : c.fields.map (fun f => (f.attr, value f)) =
      given.map fun g => (g.attr, g.value.getD g.fallback) := by
    refine map_eq_of_forall₂ (forall₂_imp_of_mem (checkFields_eq_ok_iff.mp hgiven)
      fun f g hf _ hg => ?_) fun f g heq => heq
    obtain ⟨g', hg', hvalue⟩ := h f hf
    obtain rfl : g' = g := Except.ok.inj (hg'.symm.trans hg)
    rw [attr_of_checkField hg, hvalue]
  rw [checkClass_object, hwithin, hgiven, hattrs]
  exact if_neg hbase

/-- If all fields but one can be read, the faults are those of the one. -/
theorem checkFields_of_error {fields : List FieldDef} {f : FieldDef}
    {entries : List (String × Value)} {details : List Detail} (hf : f ∈ fields)
    (hnodup : fields.Nodup) (herror : checkField s n f entries = .error details)
    (hothers : ∀ g ∈ fields, g ≠ f → ∃ given, checkField s n g entries = .ok given) :
    checkFields s n fields entries = .error details := by
  induction fields with
  | nil => cases hf
  | cons g rest ih =>
    rw [List.nodup_cons] at hnodup
    obtain ⟨hg, hrest⟩ := List.forall_mem_cons.mp hothers
    rw [checkFields_cons]
    by_cases hgf : g = f
    · subst hgf
      have hreadable : ∀ h ∈ rest, ∃ given, checkField s n h entries = .ok given :=
        fun h hh => hrest h hh fun heq => hnodup.1 (heq ▸ hh)
      obtain ⟨given, hgiven⟩ := exists_checkFields hreadable
      rw [herror, hgiven]
      rfl
    · obtain ⟨given, hgiven⟩ := hg hgf
      have hmem := (List.mem_cons.mp hf).resolve_left (Ne.symm hgf)
      rw [hgiven, ih hmem hnodup.2 hrest]
      rfl

end Wire
end EndpointDsl
