import EndpointDsl.Proofs.Client.Classes
import EndpointDsl.Proofs.Wire.Fields
import EndpointDsl.Proofs.Wire.Scalars
import EndpointDsl.Wire.Call

/-!
The values that a program can obtain from a module.

An instance fits its class: every field holds a value of its type, or else what it falls back to.
Checking a value gives one that fits, provided that the instances inside the value already do.  So
however instances are made from each other, all of them fit.
-/

namespace EndpointDsl
namespace Wire

open Client (ClassDef FieldDef FieldType Module)

/-- A field that is not given holds what it falls back to, whatever its type. -/
def FallsBack (f : FieldDef) (v : Value) : Prop := v = fallbackValue f ∧ f.fallback ≠ .required

/-- The values of a type in a module. -/
inductive Fits (m : Module) : FieldType → Value → Prop
  | scalar {kind : Schema.Scalar} {v : Value} (h : kind.Holds v) : Fits m (.scalar kind) v
  | unit : Fits m .unit .null
  | absent (t : FieldType) : Fits m (.optional t) .null
  | present {t : FieldType} {v : Value} (hne : v ≠ .null) (h : Fits m t v) : Fits m (.optional t) v
  | list {t : FieldType} {items : List Value} (h : ∀ v ∈ items, Fits m t v) :
      Fits m (.list t) (.list items)
  | struct {name : String} {c : ClassDef} {value : FieldDef → Value} (hc : m.class? name = some c)
      (hbase : c.base ≠ .enum)
      (h : ∀ f ∈ c.fields, ¬ FallsBack f (value f) → Fits m f.fieldType (value f)) :
      Fits m (.model name) (.model name (c.fields.map fun f => (f.attr, value f)))
  | choice {name : String} {c : ClassDef} {f : FieldDef} {payload : Value}
      (hc : m.class? name = some c) (hbase : c.base = .enum) (hf : f ∈ c.fields)
      (hneeded : payload = .null → c.payloadRequired.contains f.attr = false)
      (h : Fits m f.fieldType payload) : Fits m (.model name) (.choice name f.attr payload)

/-- A value without parts. -/
def Value.IsScalar : Value → Prop
  | .list _ => False
  | .object _ => False
  | .model _ _ => False
  | .choice _ _ _ => False
  | _ => True

/-- A value whose instances fit their classes and whose dates exist. -/
inductive Sound (m : Module) : Value → Prop
  | scalar {v : Value} (hscalar : v.IsScalar) (hproper : v.Proper) : Sound m v
  | list {items : List Value} (h : ∀ v ∈ items, Sound m v) : Sound m (.list items)
  | object {entries : List (String × Value)} (h : ∀ e ∈ entries, Sound m e.2) :
      Sound m (.object entries)
  | made {name : String} {v : Value} (h : Fits m (.model name) v) : Sound m v

/-- What a program can have: scalars, lists and objects of what it has, the instances that it makes
from these, their parts, and copies of them with new values that the types of the fields allow. -/
inductive Obtained (m : Module) : Value → Prop
  | scalar {v : Value} (hscalar : v.IsScalar) (hproper : v.Proper) : Obtained m v
  | list {items : List Value} (h : ∀ v ∈ items, Obtained m v) : Obtained m (.list items)
  | object {entries : List (String × Value)} (h : ∀ e ∈ entries, Obtained m e.2) :
      Obtained m (.object entries)
  | constructed {name : String} {args : List (String × Value)} {v : Value}
      (hargs : ∀ e ∈ args, Obtained m e.2) (h : construct m name args = .ok v) : Obtained m v
  | decoded {name : String} {payload v : Value} (hpayload : Obtained m payload)
      (h : decodeAs m name payload = .ok v) : Obtained m v
  | received {name : String} {headers : List (String × Value)} {v : Value}
      (hheaders : ∀ e ∈ headers, Obtained m e.2) (h : decodeHeadersAs m name headers = .ok v) :
      Obtained m v
  | part {x v : Value} {attr : String} (hx : Obtained m x) (h : attribute? m x attr = some v) :
      Obtained m v
  | item {items : List Value} {v : Value} (hitems : Obtained m (.list items)) (hv : v ∈ items) :
      Obtained m v
  | copied {x new v : Value} {c : ClassDef} {f : FieldDef} {n : Nesting} (hx : Obtained m x)
      (hnew : Obtained m new) (hc : classOf? m x = some c) (hf : f ∈ c.fields)
      (hallowed : checkValue (.program m) n f.fieldType new = .ok new)
      (h : rebuild m x ("with_" ++ f.attr) [new] = .ok v) : Obtained m v

variable {m : Module} {s : Setting} {n : Nesting} {c : ClassDef}

theorem name_of_class? {name : String} {c : ClassDef} (h : m.class? name = some c) :
    c.name = name := by
  have hfound := List.find?_some h
  exact beq_iff_eq.mp hfound

/-! ## Fitting values are sound -/

theorem sound_of_fits {t : FieldType} {v : Value} (h : Fits m t v) : Sound m v := by
  induction h with
  | scalar h => exact .scalar (by cases h <;> trivial) (Scalar.Holds.proper h)
  | unit => exact .scalar trivial trivial
  | absent t => exact .scalar trivial trivial
  | present hne h ih => exact ih
  | list h ih => exact .list ih
  | struct hc hbase h ih => exact .made (.struct hc hbase h)
  | choice hc hbase hf hneeded h ih => exact .made (.choice hc hbase hf hneeded h)

theorem sound_fallbackValue (f : FieldDef) : Sound m (fallbackValue f) := by
  unfold fallbackValue
  cases f.fallback with
  | required | absent | builder => exact .scalar trivial trivial
  | zero z =>
    cases z with
    | list => exact .list fun v hv => nomatch hv
    | _ => exact .scalar trivial trivial

theorem Sound.proper {v : Value} (h : Sound m v) : v.Proper := by
  cases h with
  | scalar hscalar hproper => exact hproper
  | list h => trivial
  | object h => trivial
  | made h => cases h <;> trivial

theorem Sound.attribute {x v : Value} {attr : String} (hx : Sound m x)
    (h : attribute? m x attr = some v) : Sound m v := by
  cases hx with
  | scalar hscalar hproper => cases x <;> first | cases h | exact hscalar.elim
  | list hitems => cases h
  | object hentries => cases h
  | made hfits =>
    cases hfits with
    | @struct name c value hc hbase hfields =>
      obtain ⟨f, hf, heq⟩ := List.mem_map.mp (mem_of_lookup? h)
      cases heq
      by_cases hback : FallsBack f (value f)
      · rw [hback.1]
        exact sound_fallbackValue f
      · exact sound_of_fits (hfields f hf hback)
    | @choice name c f payload hc hbase hf hneeded hpayload =>
      have hchoice : ((c.field? attr).map fun _ => if attr = f.attr then payload else .null) =
          some v := by
        rw [← h, attribute?, hc, Option.bind_some]
      obtain ⟨g, -, heq⟩ := Option.map_eq_some_iff.mp hchoice
      by_cases hattr : attr = f.attr
      · rw [if_pos hattr] at heq
        exact heq ▸ sound_of_fits hpayload
      · rw [if_neg hattr] at heq
        exact heq ▸ .scalar trivial trivial

theorem Sound.item {items : List Value} {v : Value} (h : Sound m (.list items)) (hv : v ∈ items) :
    Sound m v := by
  cases h with
  | scalar hscalar hproper => exact hscalar.elim
  | list h => exact h v hv
  | made h => cases h

/-! ## Checking gives values that fit -/

/-- Wherever a value is checked, the outcome fits. -/
def Checks (m : Module) (v : Value) : Prop :=
  ∀ {s : Setting} {n : Nesting} {t : FieldType} {w : Value}, s.module = m →
    checkValue s n t v = .ok w → Fits m t w

theorem check_null_ne_ok {kind : Schema.Scalar} {origin : Origin} {w : Value} :
    kind.check origin .null ≠ .ok w := by
  cases kind <;> exact nofun

theorem checkClass_null_ne_ok {c : ClassDef} {w : Value} : checkClass s n c .null ≠ .ok w := by
  intro h
  rw [checkClass] at h
  · cases h
  all_goals
    intros
    contradiction

/-- Null is checked to nothing but null, and only where it is allowed. -/
theorem nullable_of_checkValue {t : FieldType} {w : Value} (h : checkValue s n t .null = .ok w) :
    t.Nullable ∧ w = .null := by
  cases t with
  | scalar kind => exact absurd (checkValue_scalar_eq_ok_iff.mp h) check_null_ne_ok
  | unit => rw [checkValue_unit] at h; exact ⟨trivial, (Except.ok.inj h).symm⟩
  | optional inner => rw [checkValue_null] at h; exact ⟨trivial, (Except.ok.inj h).symm⟩
  | list item => rw [checkValue_list_of_ne (v := .null) (fun _ => nofun)] at h; cases h
  | model name =>
    obtain ⟨c, inner, -, -, h⟩ := checkValue_model_eq_ok h
    exact absurd h checkClass_null_ne_ok

theorem checks_null : Checks m .null := by
  intro s n t w hs h
  obtain ⟨hnullable, rfl⟩ := nullable_of_checkValue h
  cases t with
  | unit => exact .unit
  | optional inner => exact .absent inner
  | _ => exact hnullable.elim

theorem given_of_checkField {f : FieldDef} {entries : List (String × Value)} {g : Given}
    (hs : s.module = m) (hentries : ∀ e ∈ entries, Checks m e.2)
    (h : checkField s n f entries = .ok g) :
    g.attr = f.attr ∧ ((∃ w, g.value = some w ∧ Fits m f.fieldType w) ∨
      (g.value = none ∧ FallsBack f g.fallback)) := by
  cases hentry : entryFor? f entries with
  | some e =>
    obtain ⟨key, v⟩ := e
    rw [checkField_of_entry hentry] at h
    obtain ⟨w, hw, rfl⟩ := map_eq_ok_iff.mp h
    have hmem : ∃ e ∈ entries, e.2 = v := by
      unfold entryFor? at hentry
      split at hentry
      · next hwire =>
        cases hentry
        exact ⟨_, mem_of_lookup? hwire, rfl⟩
      · obtain ⟨v', hattr, heq⟩ := Option.map_eq_some_iff.mp hentry
        cases heq
        exact ⟨_, mem_of_lookup? hattr, rfl⟩
    obtain ⟨e, he, rfl⟩ := hmem
    exact ⟨rfl, Or.inl ⟨w, rfl, hentries e he hs (Checked.under_eq_ok_iff.mp hw)⟩⟩
  | none =>
    rw [checkField_of_none hentry] at h
    split at h
    · cases h
    · next hrequired =>
      cases h
      exact ⟨rfl, Or.inr ⟨rfl, rfl, hrequired⟩⟩

/-- What a field of an instance gets from the entries. -/
def givenValue (s : Setting) (n : Nesting) (entries : List (String × Value)) (f : FieldDef) :
    Value :=
  match checkField s n f entries with
  | .ok g => g.value.getD g.fallback
  | .error _ => .null

theorem fits_instanceOf {c : ClassDef} {entries : List (String × Value)} {given : List Given}
    (hs : s.module = m) (hc : m.class? c.name = some c) (hbase : c.base ≠ .enum)
    (hentries : ∀ e ∈ entries, Checks m e.2)
    (h : List.Forall₂ (fun f g => checkField s n f entries = .ok g) c.fields given) :
    Fits m (.model c.name) (instanceOf c given) := by
  have hattrs : (c.fields.map fun f => (f.attr, givenValue s n entries f)) =
      given.map fun g => (g.attr, g.value.getD g.fallback) :=
    map_eq_of_forall₂ h fun f g hg => by
      rw [givenValue, hg, (given_of_checkField hs hentries hg).1]
  rw [instanceOf, ← hattrs]
  refine .struct hc hbase fun f hf hback => ?_
  obtain ⟨g, -, hg⟩ := exists_of_mem_forall₂_left h hf
  rw [givenValue, hg] at hback ⊢
  rcases (given_of_checkField hs hentries hg).2 with ⟨w, hw, hfits⟩ | ⟨hnone, hfallback⟩
  · show Fits m f.fieldType (g.value.getD g.fallback)
    rw [hw]
    exact hfits
  · refine absurd ?_ hback
    show FallsBack f (g.value.getD g.fallback)
    rw [hnone]
    exact hfallback

theorem fits_choiceOf {c : ClassDef} {entries : List (String × Value)} {given : List Given}
    {w : Value}
    (hs : s.module = m) (hc : m.class? c.name = some c) (hbase : c.base = .enum)
    (hentries : ∀ e ∈ entries, Checks m e.2)
    (h : List.Forall₂ (fun f g => checkField s n f entries = .ok g) c.fields given)
    (hw : choiceOf c given = .ok w) : Fits m (.model c.name) w := by
  unfold choiceOf at hw
  split at hw
  · next attr payload hchosen =>
    have hmem : (attr, payload) ∈ given.filterMap fun g => g.value.map (g.attr, ·) := by
      rw [hchosen]
      exact List.mem_singleton_self _
    obtain ⟨g, hg, hvalue⟩ := List.mem_filterMap.mp hmem
    obtain ⟨payload', hpayload, heq⟩ := Option.map_eq_some_iff.mp hvalue
    cases heq
    obtain ⟨f, hf, hcheck⟩ := exists_of_mem_forall₂ h hg
    obtain ⟨hattr, hgiven⟩ := given_of_checkField hs hentries hcheck
    rcases hgiven with ⟨w', hw', hfits⟩ | ⟨hnone, -⟩
    · rw [hpayload] at hw'
      cases hw'
      rw [hattr] at hw
      split at hw
      · split at hw
        · cases hw
        · next hneeded =>
          cases hw
          exact .choice hc hbase hf (fun _ => Bool.eq_false_iff.mpr hneeded) hfits
      · next hne =>
        cases hw
        exact .choice hc hbase hf (fun heq => absurd heq hne) hfits
    · rw [hpayload] at hnone
      cases hnone
  · cases hw

theorem fits_of_fields {c : ClassDef} {entries : List (String × Value)} {w : Value}
    (hs : s.module = m) (hc : m.class? c.name = some c) (hentries : ∀ e ∈ entries, Checks m e.2)
    (h : checkFields (s.within c) n c.fields entries >>= assemble c = .ok w) :
    Fits m (.model c.name) w := by
  have hwithin : (s.within c).module = m := by
    unfold Setting.within
    split <;> exact hs
  obtain ⟨given, hgiven, hw⟩ := bind_eq_ok_iff.mp h
  rw [checkFields_eq_ok_iff] at hgiven
  unfold assemble at hw
  split at hw
  · next hbase => exact fits_choiceOf hwithin hc hbase hentries hgiven hw
  · next hbase =>
    cases hw
    exact fits_instanceOf hwithin hc hbase hentries hgiven

theorem fits_of_checkClass {c : ClassDef} {v w : Value} (hs : s.module = m)
    (hc : m.class? c.name = some c) (hv : Sound m v)
    (hentries : ∀ entries, v = .object entries → ∀ e ∈ entries, Checks m e.2)
    (h : checkClass s n c v = .ok w) : Fits m (.model c.name) w := by
  unfold checkClass at h
  split at h
  · next entries => exact fits_of_fields hs hc (hentries entries rfl) h
  · next name =>
    split at h
    · refine fits_of_fields hs hc (fun e he => ?_) h
      rw [List.mem_singleton.mp he]
      exact checks_null
    · cases h
  · next name attrs =>
    split at h
    · next hname =>
      cases h
      subst hname
      cases hv with
      | scalar hscalar hproper => exact hscalar.elim
      | made hfits => cases hfits with | struct hc hbase hfields => exact .struct hc hbase hfields
    · cases h
  · next name attr payload =>
    split at h
    · next hname =>
      cases h
      subst hname
      cases hv with
      | scalar hscalar hproper => exact hscalar.elim
      | made hfits =>
        cases hfits with
        | choice hc hbase hf hneeded hpayload => exact .choice hc hbase hf hneeded hpayload
    · cases h
  · cases h

theorem checks_of_parts {v : Value} (hv : Sound m v)
    (hitems : ∀ items, v = .list items → ∀ u ∈ items, Checks m u)
    (hentries : ∀ entries, v = .object entries → ∀ e ∈ entries, Checks m e.2) : Checks m v := by
  intro s n t w hs h
  induction t generalizing w with
  | scalar kind => exact .scalar (holds_of_check hv.proper (checkValue_scalar_eq_ok_iff.mp h))
  | unit =>
    by_cases hnull : v = .null
    · subst hnull
      exact checks_null hs h
    · rw [checkValue_unit_of_ne hnull] at h
      cases h
  | optional inner ih =>
    by_cases hnull : v = .null
    · subst hnull
      exact checks_null hs h
    · rw [checkValue_optional hnull] at h
      by_cases hw : w = .null
      · rw [hw]
        exact .absent inner
      · exact .present hw (ih h)
  | list item =>
    by_cases hlist : ∃ items, v = .list items
    · obtain ⟨items, rfl⟩ := hlist
      rw [checkValue_list] at h
      obtain ⟨ws, hws, rfl⟩ := map_eq_ok_iff.mp h
      refine .list fun w hw => ?_
      obtain ⟨u, hu, hcheck⟩ := exists_of_mem_forall₂ (checkItems_eq_ok_iff.mp hws) hw
      exact hitems items rfl u hu hs hcheck
    · rw [checkValue_list_of_ne (not_exists.mp hlist)] at h
      cases h
  | model name =>
    obtain ⟨c, inner, hc, -, hclass⟩ := checkValue_model_eq_ok h
    rw [hs] at hc
    obtain rfl := name_of_class? hc
    exact fits_of_checkClass hs hc hv hentries hclass

theorem checks_of_sound {v : Value} (h : Sound m v) : Checks m v := by
  induction h with
  | scalar hscalar hproper =>
    refine checks_of_parts (.scalar hscalar hproper) (fun items heq => ?_) (fun entries heq => ?_)
    · subst heq; exact hscalar.elim
    · subst heq; exact hscalar.elim
  | list h ih =>
    refine checks_of_parts (.list h) (fun items heq => ?_) (fun entries => nofun)
    cases heq
    exact ih
  | object h ih =>
    refine checks_of_parts (.object h) (fun items => nofun) (fun entries heq => ?_)
    cases heq
    exact fun e he => ih e he
  | made h =>
    refine checks_of_parts (.made h) (fun items heq => ?_) (fun entries heq => ?_)
    · subst heq; cases h
    · subst heq; cases h

/-! ## All that can be obtained is sound -/

theorem sound_of_checkAs {c : ClassDef} {v w : Value} (hs : s.module = m)
    (hc : m.class? c.name = some c)
    (hv : Sound m v) (h : checkAs s c v = .ok w) : Sound m w := by
  refine .made (fits_of_checkClass hs hc hv (fun entries heq e he => ?_) h)
  subst heq
  cases hv with
  | scalar hscalar hproper => exact hscalar.elim
  | object h => exact checks_of_sound (h e he)
  | made h => cases h

mutual

theorem sound_ofJson (j : Json) : Sound m (.ofJson j) :=
  match j with
  | .null => .scalar trivial trivial
  | .bool _ => .scalar trivial trivial
  | .int _ => .scalar trivial trivial
  | .float _ => .scalar trivial trivial
  | .string _ => .scalar trivial trivial
  | .array items => .list (sound_ofItems items)
  | .object fields => .object (sound_ofFields fields)

theorem sound_ofItems (items : List Json) : ∀ v ∈ Value.ofItems items, Sound m v :=
  match items with
  | [] => fun _ hv => nomatch hv
  | j :: rest => fun v hv =>
    (List.mem_cons.mp hv).elim (fun heq => heq ▸ sound_ofJson j) (sound_ofItems rest v)

theorem sound_ofFields (fields : List (String × Json)) : ∀ e ∈ Value.ofFields fields, Sound m e.2 :=
  match fields with
  | [] => fun _ he => nomatch he
  | (_, j) :: rest => fun e he =>
    (List.mem_cons.mp he).elim (fun heq => heq ▸ sound_ofJson j) (sound_ofFields rest e)

end

theorem checked_eq_ok_iff {x : Checked Value} {v : Value} : checked x = .ok v ↔ x = .ok v := by
  cases x with
  | ok w => exact ⟨fun h => by cases h; rfl, fun h => by cases h; rfl⟩
  | error details => constructor <;> exact nofun

theorem member_eq_ok_iff {α : Type} {x : Option α} {a : α} : member x = .ok a ↔ x = some a := by
  cases x with
  | some b => exact ⟨fun h => by cases h; rfl, fun h => by cases h; rfl⟩
  | none => constructor <;> exact nofun

theorem class?_of_decodable {name : String} {c : ClassDef} (h : decodable m name = .ok c) :
    m.class? name = some c := by
  obtain ⟨c', hc', h⟩ := bind_eq_ok_iff.mp h
  split at h
  · cases h
    exact member_eq_ok_iff.mp hc'
  · cases h

theorem sound_of_decode {c : ClassDef} {payload v : Value} (hc : m.class? c.name = some c)
    (hpayload : Sound m payload) (h : decode m c payload = .ok v) : Sound m v := by
  have hdocument : ∀ text, ofDocument m c text = .ok v → Sound m v := by
    intro text h
    unfold ofDocument at h
    split at h
    · exact sound_of_checkAs rfl hc (sound_ofJson _) h
    · cases h
  unfold decode at h
  split at h
  · exact hdocument _ h
  · split at h
    · exact hdocument _ h
    · cases h
  · exact sound_of_checkAs rfl hc hpayload h

theorem sound_ownHeaders {c : ClassDef} {headers : List (String × Value)}
    (h : ∀ e ∈ headers, Sound m e.2) : ∀ e ∈ ownHeaders c headers, Sound m e.2 := by
  intro e he
  obtain ⟨f, -, hf⟩ := List.mem_filterMap.mp he
  obtain ⟨v, hv, rfl⟩ := Option.map_eq_some_iff.mp hf
  rcases exists_of_mem_foldl_put (mem_of_lookup? hv) with hnil | ⟨g, hg, hvalue⟩
  · cases hnil
  · obtain ⟨header, hheader, rfl⟩ := List.mem_map.mp hg
    exact hvalue ▸ h header hheader

/-- The attributes of every class differ. -/
def AttrsDiffer (m : Module) : Prop := ∀ c ∈ m.classes, (c.fields.map (·.attr)).Nodup

theorem put_map {fields : List FieldDef} (hattrs : (fields.map (·.attr)).Nodup) {f : FieldDef}
    (hf : f ∈ fields) (value : FieldDef → Value) (new : Value) :
    put f.attr new (fields.map fun g => (g.attr, value g)) =
      fields.map fun g => (g.attr, if g = f then new else value g) := by
  induction fields with
  | nil => cases hf
  | cons g rest ih =>
    rw [List.map_cons, List.nodup_cons] at hattrs
    rw [List.map_cons, List.map_cons, put]
    by_cases hgf : g = f
    · subst hgf
      rw [if_pos rfl, if_pos rfl]
      congr 1
      refine List.map_congr_left fun h hh => ?_
      rw [if_neg fun heq => hattrs.1 (List.mem_map.mpr ⟨h, hh, by rw [heq]⟩)]
    · have hrest : f ∈ rest := (List.mem_cons.mp hf).resolve_left fun heq => hgf heq.symm
      have hname : g.attr ≠ f.attr := fun heq => hattrs.1 (List.mem_map.mpr ⟨f, hrest, heq.symm⟩)
      rw [if_neg hname, if_neg hgf, ih hattrs.2 hrest]

theorem find?_method (hattrs : (c.fields.map (·.attr)).Nodup) {f g : FieldDef} (hf : f ∈ c.fields)
    (h : (c.fields.find? fun g => "with_" ++ f.attr == "with_" ++ g.attr) = some g) : g = f := by
  have hname := List.find?_some h
  have hattr : g.attr = f.attr := by
    have happend := congrArg String.toList (beq_iff_eq.mp hname)
    rw [String.toList_append, String.toList_append, List.append_cancel_left_eq] at happend
    exact (String.toList_inj.mp happend).symm
  exact List.inj_on_of_nodup_map hattrs (List.mem_of_find?_eq_some h) hf hattr

/-- A copy with a new value that fits is sound. -/
theorem Sound.copied (hattrs : AttrsDiffer m) {x new v : Value} {f : FieldDef} (hx : Sound m x)
    (hc : classOf? m x = some c) (hf : f ∈ c.fields) (hnew : Fits m f.fieldType new)
    (h : rebuild m x ("with_" ++ f.attr) [new] = .ok v) : Sound m v := by
  obtain ⟨c', hc', h⟩ := bind_eq_ok_iff.mp h
  rw [member_eq_ok_iff, hc] at hc'
  cases hc'
  obtain ⟨g, hg, h⟩ := bind_eq_ok_iff.mp h
  rw [member_eq_ok_iff] at hg
  have hreplaced : replace f.attr new x = v := by
    simp only at h
    split at h
    · cases h
    · rw [find?_method (hattrs c ?_) hf hg] at h
      · exact Except.ok.inj h
      · cases x <;> first | cases hc | exact List.mem_of_find?_eq_some hc
  subst hreplaced
  cases hx with
  | scalar hscalar hproper => cases x <;> first | cases hc | exact hscalar.elim
  | list hitems => cases hc
  | object hentries => cases hc
  | made hfits =>
    cases hfits with
    | @choice name c' f' payload hc' hbase hf' hneeded hpayload =>
      exact .made (.choice hc' hbase hf' hneeded hpayload)
    | @struct name c' value hc' hbase hfields =>
      have hcc : c' = c := Option.some.inj (hc'.symm.trans hc)
      subst hcc
      show Sound m (.model _ (put f.attr new _))
      rw [put_map (hattrs c' (List.mem_of_find?_eq_some hc')) hf]
      refine .made (.struct hc' hbase fun g hg hback => ?_)
      by_cases hgf : g = f
      · subst hgf
        rw [if_pos rfl]
        exact hnew
      · rw [if_neg hgf] at hback ⊢
        exact hfields g hg hback

theorem sound_of_obtained (hattrs : AttrsDiffer m) {v : Value} (h : Obtained m v) : Sound m v := by
  induction h with
  | scalar hscalar hproper => exact .scalar hscalar hproper
  | list h ih => exact .list ih
  | object h ih => exact .object ih
  | constructed hargs h ih =>
    obtain ⟨c, hc, hmade⟩ := bind_eq_ok_iff.mp h
    have hclass := member_eq_ok_iff.mp hc
    obtain rfl := name_of_class? hclass
    exact sound_of_checkAs (s := .program m) rfl hclass (.object ih) (checked_eq_ok_iff.mp hmade)
  | decoded hpayload h ih =>
    obtain ⟨c, hc, hmade⟩ := bind_eq_ok_iff.mp h
    have hclass := class?_of_decodable hc
    obtain rfl := name_of_class? hclass
    exact sound_of_decode hclass ih (checked_eq_ok_iff.mp hmade)
  | received hheaders h ih =>
    obtain ⟨c, hc, hmade⟩ := bind_eq_ok_iff.mp h
    have hclass := class?_of_decodable hc
    obtain rfl := name_of_class? hclass
    exact sound_of_checkAs (s := .program m) rfl hclass (.object (sound_ownHeaders ih))
      (checked_eq_ok_iff.mp hmade)
  | part hx h ih => exact ih.attribute h
  | item hitems hv ih => exact ih.item hv
  | copied hx hnew hc hf hallowed h ih ihnew =>
    exact ih.copied hattrs hc hf (checks_of_sound ihnew rfl hallowed) h

end Wire
end EndpointDsl
