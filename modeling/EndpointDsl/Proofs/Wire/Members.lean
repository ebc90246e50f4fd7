import EndpointDsl.Proofs.Client.Names
import EndpointDsl.Proofs.Wire.Builders
import EndpointDsl.Proofs.Wire.Requests

/-!
Whether an attribute hides a member of the base class of its class.

The names that attributes keep away from are gathered from two of the base classes.  These have the
members of the model library and all members of the run-time support but one: only the base of
queries renders a query string.  A field of that name takes the place of the method there.
-/

namespace EndpointDsl
namespace Client

/-! ## Members -/

/-- The public members that all models have from the model library. -/
def libraryMembers : List String :=
  ["construct", "copy", "dict", "from_orm", "json", "model_computed_fields", "model_config",
   "model_construct", "model_copy", "model_dump", "model_dump_json", "model_extra", "model_fields",
   "model_fields_set", "model_json_schema", "model_parametrized_name", "model_post_init",
   "model_rebuild", "model_validate", "model_validate_json", "model_validate_strings",
   "parse_file", "parse_obj", "parse_raw", "schema", "schema_json", "update_forward_refs",
   "validate"]

namespace Base

/-- The methods that the run-time support gives to instances. -/
def methods (base : Base) : List String :=
  ["error_value", "is_error"] ++
    (if base.canEncode then ["encode", "to_json", "encode_headers"] else []) ++
    (if base = queryEncodable then ["to_query_string"] else []) ++
    if base.canDecode then ["decode", "decode_headers"] else []

/-- The public members of a base class.  An enum tells its variant and the payload of it. -/
def members (base : Base) : List String :=
  libraryMembers ++ base.methods ++ if base = enum then ["variant", "value"] else []

end Base

/-- Only the base of queries has a member that enums do not have. -/
theorem mem_members_cases {base : Base} {name : String} (h : name ∈ base.members) :
    base = .queryEncodable ∧ name = "to_query_string" ∨ name ∈ Base.enum.members := by
  cases base <;>
    simp only [Base.members, Base.methods, Base.canEncode, Base.canDecode, List.mem_append,
      if_true, if_false, reduceCtorEq, Bool.false_eq_true, List.append_nil, List.mem_singleton,
      true_and, false_and, false_or] at h ⊢ <;>
    tauto

/-- The members of an enum are reserved, or have the form that is. -/
theorem isReserved_of_mem_enum : ∀ name ∈ Base.enum.members,
    (Name.isReserved name || "model_".toList.isPrefixOf name.toList) = true := by
  decide +kernel

theorem getLast?_of_mem_enum : ∀ name ∈ Base.enum.members, name.toList.getLast? ≠ some '_' := by
  decide +kernel

/-- A reserved name gets a mark, which no name that is kept away from ends with. -/
theorem attributeName_not_mem {names : List String}
    (hreserved : ∀ name ∈ names,
      (Name.isReserved name || "model_".toList.isPrefixOf name.toList) = true)
    (hlast : ∀ name ∈ names, name.toList.getLast? ≠ some '_') (name : String) :
    Name.attributeName name ∉ names := by
  unfold Name.attributeName
  generalize Name.attributeStem name = stem
  simp only
  split
  · intro hmem
    refine hlast _ hmem ?_
    rw [String.toList_append]
    exact List.getLast?_concat
  · next hplain => exact fun hmem => hplain (hreserved stem hmem)

/-- A name becomes an attribute that hides a member in one case only. -/
theorem attributeName_mem_members_iff (name : String) (base : Base) :
    Name.attributeName name ∈ base.members ↔
      base = .queryEncodable ∧ Name.attributeStem name = "to_query_string" := by
  constructor
  · intro hmem
    obtain ⟨hbase, hquery⟩ := (mem_members_cases hmem).resolve_right
      (attributeName_not_mem isReserved_of_mem_enum getLast?_of_mem_enum name)
    refine ⟨hbase, ?_⟩
    unfold Name.attributeName at hquery
    simp only at hquery
    split at hquery
    · have hlast := congrArg (·.toList.getLast?) hquery
      simp only [String.toList_append] at hlast
      exact absurd (List.getLast?_concat.symm.trans hlast) (by decide)
    · exact hquery
  · rintro ⟨rfl, hstem⟩
    rw [Name.attributeName, hstem]
    decide

theorem attributeName_eq_iff (name : String) :
    Name.attributeName name = "to_query_string" ↔
      Name.attributeStem name = "to_query_string" := by
  have hiff := attributeName_mem_members_iff name .queryEncodable
  constructor
  · intro h
    exact (hiff.mp (by rw [h]; decide)).2
  · intro h
    rw [Name.attributeName, h]
    decide

theorem attr_mem_members_iff {className : String → Gen String} {m : Schema.Method}
    {i : Schema.Item} {c : ClassDef} (h : itemClass className m i = .ok c) {f : FieldDef}
    (hf : f ∈ c.fields) (base : Base) :
    f.attr ∈ base.members ↔ base = .queryEncodable ∧ f.attr = "to_query_string" := by
  obtain ⟨name, -, hattr⟩ := exists_name_of_mem_fields h hf
  rw [hattr, attributeName_mem_members_iff, attributeName_eq_iff]

end Client

namespace Wire

open Client (ClassDef FieldDef Module)

/-! ## Compiled classes -/

/-- An attribute hides a member of a base class in one case only: it is named like the method that
renders a query string, in a class of a query.  Where no field of a query has that name the method
renders the query string, and where one has it the method cannot be called. -/
theorem attribute_hides_member_iff (name : String) (base : Client.Base) :
    (Name.attributeName name ∈ base.members ↔
      base = .queryEncodable ∧ Name.attributeStem name = "to_query_string") ∧
    ∀ (text unit : String) (compiled : Compilation) (module : Module) (c : ClassDef),
      compile text unit = .ok compiled → module ∈ compiled.modules → c ∈ module.classes →
      (∀ f ∈ c.fields, f.attr ∈ c.base.members ↔
        c.base = .queryEncodable ∧ f.attr = "to_query_string") ∧
      ∀ v, classOf? (settled module) v = some (settledClass c) → c.base = .queryEncodable →
        ((∀ f ∈ c.fields, f.attr ∉ c.base.members) →
          invoke (settled module) v "to_query_string" [] =
            (queryString (settled module) v).map .text) ∧
        ((∃ f ∈ c.fields, f.attr ∈ c.base.members) →
          invoke (settled module) v "to_query_string" [] = .error .wrongArguments) := by
  refine ⟨Client.attributeName_mem_members_iff name base, ?_⟩
  intro text unit compiled module c hcompiled hmodule hc
  obtain ⟨e, source, -, hmade⟩ := exists_endpoint_of_mem_modules hcompiled hmodule
  obtain ⟨m, -, i, -, className, hclass⟩ := Client.exists_item_of_mem_classes hmade hc
  have hiff := fun f (hf : f ∈ c.fields) => Client.attr_mem_members_iff hclass hf c.base
  refine ⟨hiff, fun v hv hbase => ⟨fun hfree => ?_, ?_⟩⟩
  · have hnone : (settledClass c).field? "to_query_string" = none := by
      rw [ClassDef.field?, settledClass, List.find?_map, Option.map_eq_none_iff,
        List.find?_eq_none]
      intro f hf hname
      rw [Function.comp_apply, settledField_attr, beq_iff_eq] at hname
      exact hfree f hf ((hiff f hf).mpr ⟨hbase, hname⟩)
    rw [invoke_eq_invokeInstance hv, invokeInstance, hv]
    show (if ((settledClass c).field? "to_query_string").isSome then _ else _) = _
    rw [hnone]
    show (do let s ← queryString (settled module) v; pure (Value.text s)) = _
    cases queryString (settled module) v <;> rfl
  · rintro ⟨f, hf, hmem⟩
    rw [← ((hiff f hf).mp hmem).2, ← settledField_attr c f]
    exact invoke_field hv (List.mem_map_of_mem hf) Nat.zero_lt_two

/-- A query whose fields are named by single letters keeps the method. -/
theorem shared_members_free : ∃ compiled module c, compile sharedText "" = .ok compiled ∧
    module ∈ compiled.modules ∧ c ∈ module.classes ∧ c.base = .queryEncodable ∧
    (∀ f ∈ c.fields, f.attr ∉ c.base.members) ∧
    ∀ v, classOf? (settled module) v = some (settledClass c) →
      invoke (settled module) v "to_query_string" [] =
        (queryString (settled module) v).map .text := by
  obtain ⟨compiled, module, hcompiled, -, -, hmodules, hmade⟩ :=
    exists_sole_module shared_built sharedEndpoint_wellFormed
  obtain ⟨c, hclasses, hshared⟩ := exists_sharedClass hmade
  have hmodule : module ∈ compiled.modules := hmodules ▸ List.mem_singleton_self _
  have hc : c ∈ module.classes := hclasses ▸ List.mem_singleton_self c
  obtain ⟨-, hall⟩ := attribute_hides_member_iff "a" .queryEncodable
  obtain ⟨hiff, hcalls⟩ := hall _ _ _ _ _ hcompiled hmodule hc
  have hfree : ∀ f ∈ c.fields, f.attr ∉ c.base.members := by
    intro f hf hmem
    have hattr := ((hiff f hf).mp hmem).2
    rw [hshared.fields] at hf
    simp only [List.mem_cons, List.not_mem_nil, or_false] at hf
    rcases hf with rfl | rfl <;> exact absurd hattr (by decide)
  exact ⟨compiled, module, c, hcompiled, hmodule, hc, hshared.base, hfree,
    fun v hv => (hcalls v hv hshared.base).1 hfree⟩

/-! ## A query with a field that hides its method -/

def tellingText : String := "[pub A:\x7bGET \"/t\"=>\x7bQuery\x7bto_query_string:i32\x7d\x7d\x7d]"

def tellingField : Schema.Field where
  name := "to_query_string"
  type := .primitive "i32"
  attributes := []
  location := Schema.onFirstLine 25

/-- The query with the capability that its role gives it. -/
def tellingQuery : Schema.Struct where
  name := "Query"
  role := some .query
  fields := [tellingField]
  attributes := []
  location := Schema.onFirstLine 19
  capability := ⟨true, false, true⟩

def tellingEndpoint (s : Schema.Struct) : Schema.Endpoint :=
  let m := { Schema.soleMethod (.struct s) with verb := .get }
  { Schema.soleEndpoint (.struct s) with methods := [m] }

theorem telling_built : (Tree.parse tellingText "").errors = [] ∧
    (Schema.build (Tree.parse tellingText "").source).errors = [] ∧
    (Schema.build (Tree.parse tellingText "").source).schema.endpoints =
      [tellingEndpoint { tellingQuery with capability := {} }] := by
  cbv

theorem telling_capable :
    (tellingEndpoint { tellingQuery with capability := {} }).withCapabilities =
      tellingEndpoint tellingQuery := by
  cbv

theorem tellingQuery_wellFormed : tellingQuery.WellFormed :=
  Schema.wellFormed_of_plain ⟨nofun, Nat.zero_le 1, nofun⟩ (List.forall_mem_singleton.mpr rfl)
    (List.nodup_singleton _) (List.nodup_singleton _) (List.nodup_singleton _)

theorem tellingEndpoint_wellFormed :
    (tellingEndpoint { tellingQuery with capability := {} }).WellFormed := by
  refine Schema.wellFormed_of_sole_item (j := .struct tellingQuery) rfl rfl rfl List.nodup_nil
    nofun ?_ tellingQuery_wellFormed
  rw [telling_capable]
  rfl

theorem attributeName_to_query_string : Name.attributeName "to_query_string" = "to_query_string" :=
  attributeName_eq_self (by cbv) (by cbv)

theorem telling_compiles : ∃ compiled module c, compile tellingText "" = .ok compiled ∧
    module ∈ compiled.modules ∧ c ∈ module.classes ∧ c.base = .queryEncodable ∧
    c.builder = false ∧
    c.fields = [⟨"to_query_string", .scalar .int, "to_query_string", .required⟩] := by
  obtain ⟨compiled, module, hcompiled, -, -, hmodules, hmade⟩ :=
    exists_sole_module telling_built tellingEndpoint_wellFormed
  have hentries : (Schema.resolveEndpoint
      (tellingEndpoint { tellingQuery with capability := {} })).entries =
        (tellingEndpoint (Schema.resolveStruct tellingQuery)).entries := by
    rw [Schema.resolveEndpoint, telling_capable]
    rfl
  obtain ⟨c, className, hclasses, hclass⟩ := exists_class_of_entry hmade hentries
  refine ⟨compiled, module, c, hcompiled, hmodules ▸ List.mem_singleton_self _,
    hclasses ▸ List.mem_singleton_self c, ?_⟩
  obtain ⟨base, fields, hbase, hfields, rfl⟩ := Client.structClass_eq_ok_iff.mp hclass
  have hdefs : (Schema.resolveStruct tellingQuery).fields.mapM (Client.fieldDef className "Query") =
      .ok [⟨Name.attributeName "to_query_string", .scalar .int, "to_query_string", .required⟩] :=
    rfl
  rw [attributeName_to_query_string] at hdefs
  exact ⟨(Except.ok.inj hbase).symm, rfl, Except.ok.inj (hfields.symm.trans hdefs)⟩

/-- The field is declared under a name that its base has, and the instances that are made have no
method of that name. -/
theorem telling_method_hidden : ∃ compiled module c v, compile tellingText "" = .ok compiled ∧
    module ∈ compiled.modules ∧ c ∈ module.classes ∧
    (∃ f ∈ c.fields, f.attr = Name.attributeName "to_query_string" ∧ f.attr ∈ c.base.members) ∧
    construct (settled module) c.name [("to_query_string", .int 1)] = .ok v ∧
    invoke (settled module) v "to_query_string" [] = .error .wrongArguments := by
  obtain ⟨compiled, module, c, hcompiled, hmodule, hc, hbase, hbuilder, hfields⟩ :=
    telling_compiles
  have hfound : (settled module).class? c.name = some c := by
    rw [class?_settled, class?_of_compile hcompiled hmodule hc, Option.map_some,
      settledClass_of_plain hbuilder]
  have hfield : (⟨"to_query_string", .scalar .int, "to_query_string", .required⟩ : FieldDef) ∈
      c.fields := by
    rw [hfields]
    exact List.mem_singleton_self _
  have hgiven : ∀ s n, checkFields s n c.fields [("to_query_string", .int 1)] =
      .ok [⟨"to_query_string", some (.int 1), .null⟩] := by
    intro s n
    have hint : checkValue s n (.scalar .int) (.int 1) = .ok (.int 1) := by
      rw [checkValue_scalar_eq_ok_iff]
      rfl
    rw [hfields, checkFields_eq_ok_iff]
    refine .cons ?_ .nil
    rw [checkField_of_entry (show entryFor? _ _ = some ("to_query_string", .int 1) from rfl), hint]
    rfl
  refine ⟨compiled, module, c, .model c.name [("to_query_string", .int 1)], hcompiled, hmodule, hc,
    ⟨_, hfield, attributeName_to_query_string.symm, ?_⟩, ?_, ?_⟩
  · rw [hbase]
    decide
  · rw [construct, hfound]
    refine checked_eq_ok_iff.mpr ?_
    show checkClass _ _ c _ = _
    rw [checkClass_object, hgiven]
    show assemble c _ = _
    rw [assemble, if_neg (by rw [hbase]; decide)]
    rfl
  · exact invoke_field (v := .model c.name _) hfound hfield Nat.zero_lt_two

end Wire
end EndpointDsl
