import EndpointDsl.Wire.Call
import EndpointDsl.Wire.Load
import Mathlib.Data.List.Basic

/-!
The classes of a module once it is loaded.

Attributes and builder methods are bound in one place, the methods last.  A field that has the name
of the builder method of another field is bound to the method, which takes its wire name and its
default from it.  All other fields stay as they were declared.
-/

namespace EndpointDsl
namespace Client

/-- The name of the method that replaces a field in a copy. -/
def FieldDef.builderName (f : FieldDef) : String := "with_" ++ f.attr

/-- A field of a class has the name of a builder method. -/
def ClassDef.Clashes (c : ClassDef) : Prop :=
  c.builder = true ∧ ∃ f ∈ c.fields, ∃ g ∈ c.fields, f.attr = g.builderName

theorem builderName_inj {f g : FieldDef} (h : f.builderName = g.builderName) : f.attr = g.attr := by
  have hchars := congrArg String.toList h
  rw [FieldDef.builderName, FieldDef.builderName, String.toList_append, String.toList_append,
    List.append_cancel_left_eq] at hchars
  exact String.toList_inj.mp hchars

end Client

namespace Wire

open Client (ClassDef FieldDef Module)

/-- No attribute of a class is the name of one of its builder methods. -/
def BuilderApart (c : ClassDef) : Prop := ¬ c.Clashes

variable {c : ClassDef} {f g : FieldDef}

theorem builderApart_of_plain (h : c.builder = false) : BuilderApart c := by
  rintro ⟨hbuilder, -⟩
  rw [h] at hbuilder
  cases hbuilder

theorem hiddenBy?_of_builderName (hbuilder : c.builder = true) (hg : g ∈ c.fields)
    (hname : f.attr = g.builderName) : ∃ g', hiddenBy? c f = some g' ∧ g'.attr = g.attr := by
  have hsome : (c.fields.find? fun g => f.attr == "with_" ++ g.attr).isSome = true :=
    List.find?_isSome.mpr ⟨g, hg, beq_iff_eq.mpr hname⟩
  obtain ⟨g', hg'⟩ := Option.isSome_iff_exists.mp hsome
  have hname' : f.attr = g'.builderName :=
    beq_iff_eq.mp (List.find?_some (p := fun g : FieldDef => f.attr == "with_" ++ g.attr) hg')
  exact ⟨g', by rw [hiddenBy?, hbuilder, if_pos rfl, hg'],
    Client.builderName_inj (hname'.symm.trans hname)⟩

theorem hiddenBy?_eq_none (h : BuilderApart c) (hf : f ∈ c.fields) : hiddenBy? c f = none := by
  cases hbuilder : c.builder with
  | false => rw [hiddenBy?, hbuilder, if_neg Bool.false_ne_true]
  | true =>
    rw [hiddenBy?, hbuilder, if_pos rfl, List.find?_eq_none]
    exact fun g hg hname => h ⟨hbuilder, f, hf, g, hg, beq_iff_eq.mp hname⟩

/-! ## Fields -/

@[simp] theorem settledField_attr (c : ClassDef) (f : FieldDef) :
    (settledField c f).attr = f.attr := by
  unfold settledField
  split <;> rfl

theorem settledField_of_builderApart (h : BuilderApart c) (hf : f ∈ c.fields) :
    settledField c f = f := by
  rw [settledField, hiddenBy?_eq_none h hf]

theorem settledField_of_builderName (hbuilder : c.builder = true) (hg : g ∈ c.fields)
    (hname : f.attr = g.builderName) :
    settledField c f = { f with wire := f.attr, fallback := .builder c.name g.attr } := by
  obtain ⟨g', hhidden, hattr⟩ := hiddenBy?_of_builderName hbuilder hg hname
  rw [settledField, hhidden, ← hattr]

/-! ## Classes -/

theorem settledClass_of_builderApart (h : BuilderApart c) : settledClass c = c := by
  rw [settledClass, List.map_congr_left fun f hf => settledField_of_builderApart h hf,
    List.map_id']

theorem settledClass_of_plain (h : c.builder = false) : settledClass c = c :=
  settledClass_of_builderApart (builderApart_of_plain h)

theorem class?_settled (module : Module) (name : String) :
    (settled module).class? name = (module.class? name).map settledClass := by
  rw [Module.class?, settled, List.find?_map]
  rfl

theorem field?_settledClass (name : String) :
    (settledClass c).field? name = (c.field? name).map (settledField c) := by
  rw [ClassDef.field?, settledClass, List.find?_map]
  simp only [Function.comp_def, settledField_attr]
  rfl

/-- The body of a class that can be made. -/
structure ClassLoads (c : ClassDef) : Prop where
  brackets : nestsTooDeep c = false
  visible : hidesClass c = false
  wires : hasSurrogates c = false

/-- A class without builder methods can be made if it hides no other class, its types are not nested
too deep and its wire names have no character of a higher plane. -/
theorem classLoads_of_plain (hbuilder : c.builder = false) (hvisible : hidesClass c = false)
    (hfields : ∀ f ∈ c.fields, brackets f.fieldType ≤ bracketLimit ∧
      f.wire.toList.any isAstral = false) : ClassLoads c where
  brackets := by
    rw [nestsTooDeep, List.any_eq_false, hbuilder]
    intro f hf
    have hdepth := (hfields f hf).1
    simpa using hdepth
  visible := hvisible
  wires := by
    rw [hasSurrogates, settledClass_of_plain hbuilder, List.any_eq_false]
    intro f hf
    rw [(hfields f hf).2]
    exact Bool.false_ne_true

end Wire
end EndpointDsl
