import EndpointDsl.Proofs.Client.Declarations
import EndpointDsl.Proofs.Wire.Instances

/-!
The names that the body of a class binds, and what becomes of them when the module is loaded.

Attributes and builder methods share one place.  Attributes are known to differ among themselves,
and so do the methods, but a field may have the name of the method of another field.  Then the
method is the default of the field, which loses its wire name, and no instance has the method.
-/

namespace EndpointDsl
namespace Client

/-- The names that the body of a class binds. -/
def ClassDef.bodyNames (c : ClassDef) : List String :=
  c.fields.map (·.attr) ++ if c.builder then c.fields.map (·.builderName) else []

theorem nodup_bodyNames_iff {c : ClassDef} (hattrs : (c.fields.map (·.attr)).Nodup) :
    c.bodyNames.Nodup ↔ ¬ c.Clashes := by
  have hbuilders : (c.fields.map (·.builderName)).Nodup := by
    rw [List.nodup_map_iff_inj_on (List.Nodup.of_map _ hattrs)]
    intro f hf g hg hname
    exact List.inj_on_of_nodup_map hattrs hf hg (builderName_inj hname)
  unfold ClassDef.bodyNames ClassDef.Clashes
  cases c.builder with
  | false => simpa using hattrs
  | true =>
    rw [if_pos rfl, List.nodup_append', and_iff_right hattrs, and_iff_right hbuilders]
    constructor
    · rintro hapart ⟨-, f, hf, g, hg, hname⟩
      exact hapart (List.mem_map_of_mem hf) (hname ▸ List.mem_map_of_mem hg)
    · rintro hfree name hattr hmethod
      obtain ⟨f, hf, rfl⟩ := List.mem_map.mp hattr
      obtain ⟨g, hg, hname⟩ := List.mem_map.mp hmethod
      exact hfree ⟨rfl, f, hf, g, hg, hname.symm⟩

end Client

namespace Wire

open Client (ClassDef FieldDef Module)

variable {m : Module} {c : ClassDef} {v new : Value} {f : FieldDef}

theorem invoke_eq_invokeInstance (hc : classOf? m v = some c) (method : String)
    (args : List Value) : invoke m v method args = invokeInstance m v method args := by
  cases v <;> first | rfl | cases hc

/-- No value of a field can be called without saying what to copy. -/
theorem callValue_of_length {args : List Value} (h : args.length < 2) (held : Value) :
    callValue held args = .error .wrongArguments := by
  match args, h with
  | [], _ | [_], _ => cases held <;> rfl

/-- A field takes the place of a method of its name. -/
theorem invoke_field (hc : classOf? m v = some c) (hf : f ∈ c.fields) {args : List Value}
    (hargs : args.length < 2) : invoke m v f.attr args = .error .wrongArguments := by
  have hfound : (c.field? f.attr).isSome = true :=
    List.find?_isSome.mpr ⟨f, hf, beq_self_eq_true f.attr⟩
  rw [invoke_eq_invokeInstance hc, invokeInstance, hc]
  show (if (c.field? f.attr).isSome then callValue _ args else _) = _
  rw [if_pos hfound, callValue_of_length hargs]

theorem builderName_ne {name : String} (h : name.toList.head? ≠ some 'w') :
    f.builderName ≠ name := by
  rintro rfl
  refine h ?_
  rw [FieldDef.builderName, String.toList_append]
  rfl

theorem rebuild_builderName (hattrs : (c.fields.map (·.attr)).Nodup) (hc : classOf? m v = some c)
    (hbuilder : c.builder = true) (hf : f ∈ c.fields) :
    rebuild m v f.builderName [new] = .ok (replace f.attr new v) := by
  obtain ⟨g, hg⟩ : ∃ g, (c.fields.find? fun g => f.builderName == "with_" ++ g.attr) = some g :=
    Option.isSome_iff_exists.mp (List.find?_isSome.mpr ⟨f, hf, beq_self_eq_true _⟩)
  rw [rebuild, hc]
  show (do
    let g ← member (c.fields.find? fun g : FieldDef => f.builderName == "with_" ++ g.attr)
    _) = _
  rw [hg, find?_method hattrs hf hg]
  show (if !c.builder then _ else _) = _
  rw [hbuilder]
  rfl

theorem invoke_builderName (hattrs : (c.fields.map (·.attr)).Nodup) (hc : classOf? m v = some c)
    (hbuilder : c.builder = true) (hf : f ∈ c.fields)
    (hfree : ∀ g ∈ c.fields, g.attr ≠ f.builderName) :
    invoke m v f.builderName [new] = .ok (replace f.attr new v) := by
  have hnone : ¬ (c.field? f.builderName).isSome = true := by
    rw [ClassDef.field?, List.find?_isSome]
    rintro ⟨g, hg, hname⟩
    exact hfree g hg (beq_iff_eq.mp hname)
  rw [invoke_eq_invokeInstance hc, invokeInstance, hc]
  show (if (c.field? f.builderName).isSome then _ else _) = _
  rw [if_neg hnone]
  split
  case h_17 => exact rebuild_builderName hattrs hc hbuilder hf
  -- No method of the base classes has the name of a builder method.
  all_goals exact absurd ‹f.builderName = _› (builderName_ne (by decide))

/-! ## Classes of a loaded module -/

/-- Once the module is loaded, the fields of a class are as they were declared, and every builder
method of an instance puts a new value into a copy. -/
structure KeepsMembers (module : Module) (c : ClassDef) : Prop where
  fields : ∀ f ∈ c.fields, (settledClass c).field? f.attr = some f
  builders : c.builder = true → ∀ f ∈ c.fields, ∀ v new,
    classOf? (settled module) v = some (settledClass c) →
      invoke (settled module) v f.builderName [new] = .ok (replace f.attr new v)

section

variable {module : Module}

theorem keepsMembers_of_not_clashes (hattrs : (c.fields.map (·.attr)).Nodup) (h : ¬ c.Clashes) :
    KeepsMembers module c := by
  constructor
  · intro f hf
    rw [field?_settledClass, field?_of_mem hattrs hf, Option.map_some,
      settledField_of_builderApart h hf]
  · intro hbuilder f hf v new hc
    rw [settledClass_of_builderApart h] at hc
    exact invoke_builderName hattrs hc hbuilder hf fun g hg hname =>
      h ⟨hbuilder, g, hg, f, hf, hname⟩

/-- The field stays in the place of the method. -/
theorem invoke_of_clash (hc : classOf? (settled module) v = some (settledClass c)) {f g : FieldDef}
    (hf : f ∈ c.fields) (hname : f.attr = g.builderName) (new : Value) :
    invoke (settled module) v g.builderName [new] = .error .wrongArguments := by
  rw [← hname, ← settledField_attr c f]
  exact invoke_field hc (List.mem_map_of_mem hf) Nat.one_lt_two

theorem not_clashes_of_keepsMembers (hfound : module.class? c.name = some c)
    (h : KeepsMembers module c) : ¬ c.Clashes := by
  rintro ⟨hbuilder, f, hf, g, hg, hname⟩
  have hc : classOf? (settled module) (.model c.name []) = some (settledClass c) := by
    rw [classOf?, class?_settled, hfound, Option.map_some]
  have hcalled := h.builders hbuilder g hg (.model c.name []) .null hc
  rw [invoke_of_clash hc hf hname] at hcalled
  cases hcalled

end

/-- The body of a compiled class binds each name once exactly if no field has the name of a builder
method, and exactly then its fields and builder methods are what they were declared to be.  A field
with the name of a builder method loses its wire name and has the method for its default, and no
instance takes a new value by the name of the method. -/
theorem body_names_distinct_iff {text unit : String} {compiled : Compilation} {module : Module}
    (hcompiled : compile text unit = .ok compiled) (hmodule : module ∈ compiled.modules)
    (hc : c ∈ module.classes) :
    (c.bodyNames.Nodup ↔ ¬ c.Clashes) ∧ (c.bodyNames.Nodup ↔ KeepsMembers module c) ∧
      ∀ f ∈ c.fields, ∀ g ∈ c.fields, c.builder = true → f.attr = g.builderName →
        (settledClass c).field? f.attr =
          some { f with wire := f.attr, fallback := .builder c.name g.attr } ∧
        ∀ v new, classOf? (settled module) v = some (settledClass c) →
          invoke (settled module) v g.builderName [new] = .error .wrongArguments := by
  have hattrs := (lawful_of_compile hcompiled hmodule hc).attrs
  have hfound := class?_of_compile hcompiled hmodule hc
  have hnodup := Client.nodup_bodyNames_iff hattrs
  refine ⟨hnodup, hnodup.trans ⟨keepsMembers_of_not_clashes hattrs,
    not_clashes_of_keepsMembers hfound⟩, fun f hf g hg hbuilder hname => ?_⟩
  refine ⟨?_, fun v new hv => invoke_of_clash hv hf hname new⟩
  rw [field?_settledClass, field?_of_mem hattrs hf, Option.map_some,
    settledField_of_builderName hbuilder hg hname]

/-! ## A structure with a field that has the name of a builder method -/

/-- The second field is named like the method of the first one. -/
def hiddenText : String :=
  "[pub A:\x7bPUT \"/t\"=>\x7b[builder] struct R\x7ba:i32,with_a:i32\x7d\x7d\x7d]"

def hiddenField (name : String) (offset : Nat) : Schema.Field :=
  { name, type := .primitive "i32", attributes := [], location := Schema.onFirstLine offset }

def hiddenStruct : Schema.Struct :=
  { name := "R", role := none, fields := [hiddenField "a" 38, hiddenField "with_a" 44],
    attributes := [⟨.builder, .type, Schema.onFirstLine 20⟩], location := Schema.onFirstLine 29,
    capability := .both }

theorem hidden_built : (Tree.parse hiddenText "").errors = [] ∧
    (Schema.build (Tree.parse hiddenText "").source).errors = [] ∧
    (Schema.build (Tree.parse hiddenText "").source).schema.endpoints =
      [Schema.soleEndpoint (.struct { hiddenStruct with capability := {} })] := by
  cbv

theorem attributeName_with_a : Name.attributeName "with_a" = "with_a" :=
  attributeName_eq_self (by cbv) (by cbv)

theorem hiddenStruct_wellFormed : hiddenStruct.WellFormed := by
  refine Schema.wellFormed_of_plain ⟨by decide, by decide, by simp [hiddenStruct]⟩ ?_ (by decide)
    (by decide) ?_
  · simp [hiddenStruct, hiddenField]
  · show [Name.attributeName "a", Name.attributeName "with_a"].Nodup
    rw [attributeName_a, attributeName_with_a]
    decide

/-- The class of the structure. -/
structure HiddenClass (c : ClassDef) : Prop where
  base : c.base = .both
  builder : c.builder = true
  fields : c.fields =
    [⟨"a", .scalar .int, "a", .required⟩, ⟨"with_a", .scalar .int, "with_a", .required⟩]

namespace HiddenClass

theorem settledFields (h : HiddenClass c) : (settledClass c).fields =
    [⟨"a", .scalar .int, "a", .required⟩,
      ⟨"with_a", .scalar .int, "with_a", .builder c.name "a"⟩] := by
  rw [settledClass, h.fields, List.map_cons, List.map_singleton, settledField, settledField,
    hiddenBy?, hiddenBy?, h.builder, h.fields]
  rfl

/-- Both fields are decoded. -/
theorem decodeAs_eq (h : HiddenClass c) (hfound : m.class? c.name = some (settledClass c)) :
    decodeAs m c.name (.object [("a", .int 1), ("with_a", .int 2)]) =
      .ok (.model c.name [("a", .int 1), ("with_a", .int 2)]) := by
  have hbase : (settledClass c).base = .both := h.base
  have hint : ∀ s n k, checkValue s n (.scalar .int) (.int k) = .ok (.int k) := by
    intro s n k
    rw [checkValue_scalar_eq_ok_iff]
    rfl
  have hgiven : ∀ s n, checkFields s n (settledClass c).fields
      [("a", .int 1), ("with_a", .int 2)] =
        .ok [⟨"a", some (.int 1), .null⟩, ⟨"with_a", some (.int 2), .builder c.name "a"⟩] := by
    intro s n
    rw [h.settledFields, checkFields_eq_ok_iff]
    refine .cons ?_ (.cons ?_ .nil)
    · rw [checkField_of_entry (show entryFor? _ _ = some ("a", .int 1) from rfl), hint]
      rfl
    · rw [checkField_of_entry (show entryFor? _ _ = some ("with_a", .int 2) from rfl), hint]
      rfl
  refine decodeAs_of_decode hfound (Or.inl hbase) ?_
  show checkClass _ _ (settledClass c) _ = _
  rw [checkClass_object, hgiven]
  show assemble (settledClass c) _ = _
  rw [assemble, if_neg (by rw [hbase]; decide)]
  rfl

end HiddenClass

theorem hidden_compiles : ∃ compiled module c, compile hiddenText "" = .ok compiled ∧
    module ∈ compiled.modules ∧ c ∈ module.classes ∧ HiddenClass c := by
  obtain ⟨compiled, module, c, className, hcompiled, hmodule, hclasses, hclass⟩ :=
    exists_sole_class (j := .struct hiddenStruct) hidden_built rfl rfl hiddenStruct_wellFormed
  refine ⟨compiled, module, c, hcompiled, hmodule, hclasses ▸ List.mem_singleton_self c, ?_⟩
  obtain ⟨base, fields, hbase, hfields, rfl⟩ := Client.structClass_eq_ok_iff.mp hclass
  have hdefs : (Schema.resolveStruct hiddenStruct).fields.mapM (Client.fieldDef className "R") =
      .ok [⟨Name.attributeName "a", .scalar .int, "a", .required⟩,
        ⟨Name.attributeName "with_a", .scalar .int, "with_a", .required⟩] := rfl
  rw [attributeName_a, attributeName_with_a] at hdefs
  exact ⟨(Except.ok.inj hbase).symm, rfl, Except.ok.inj (hfields.symm.trans hdefs)⟩

/-- The name is bound twice, and the instances that are decoded have no method of that name. -/
theorem hidden_builder_refused : ∃ compiled module c, compile hiddenText "" = .ok compiled ∧
    module ∈ compiled.modules ∧ c ∈ module.classes ∧
    c.bodyNames = ["a", "with_a", "with_a", "with_with_a"] ∧ ¬ c.bodyNames.Nodup ∧
    ∃ v, decodeAs (settled module) c.name (.object [("a", .int 1), ("with_a", .int 2)]) = .ok v ∧
      invoke (settled module) v "with_a" [.int 3] = .error .wrongArguments := by
  obtain ⟨compiled, module, c, hcompiled, hmodule, hc, hhidden⟩ := hidden_compiles
  have hnames : c.bodyNames = ["a", "with_a", "with_a", "with_with_a"] := by
    rw [Client.ClassDef.bodyNames, hhidden.builder, hhidden.fields]
    rfl
  refine ⟨compiled, module, c, hcompiled, hmodule, hc, hnames, ?_, ?_⟩
  · rw [hnames]
    decide
  · have hfound : (settled module).class? c.name = some (settledClass c) := by
      rw [class?_settled, class?_of_compile hcompiled hmodule hc, Option.map_some]
    refine ⟨_, hhidden.decodeAs_eq hfound, ?_⟩
    have hmem : (⟨"with_a", .scalar .int, "with_a", .builder c.name "a"⟩ : FieldDef) ∈
        (settledClass c).fields := by
      rw [hhidden.settledFields]
      exact List.mem_cons_of_mem _ List.mem_cons_self
    exact invoke_field (v := .model c.name _) hfound hmem (by decide)

/-- So a member is lost. -/
theorem hidden_builder_not_kept : ∃ compiled module c, compile hiddenText "" = .ok compiled ∧
    module ∈ compiled.modules ∧ c ∈ module.classes ∧
    (c.bodyNames.Nodup ↔ KeepsMembers module c) ∧ ¬ KeepsMembers module c := by
  obtain ⟨compiled, module, c, hcompiled, hmodule, hc, hhidden⟩ := hidden_compiles
  obtain ⟨hnodup, hkeeps, -⟩ := body_names_distinct_iff hcompiled hmodule hc
  refine ⟨compiled, module, c, hcompiled, hmodule, hc, hkeeps, fun h => ?_⟩
  refine hnodup.mp (hkeeps.mpr h) ⟨hhidden.builder, ?_⟩
  rw [hhidden.fields]
  exact ⟨_, List.mem_cons_of_mem _ List.mem_cons_self, _, List.mem_cons_self, rfl⟩

end Wire
end EndpointDsl
