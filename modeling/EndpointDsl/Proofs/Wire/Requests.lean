import EndpointDsl.Proofs.Wire.Arguments
import EndpointDsl.Proofs.Wire.Loading

/-!
The URI and the request that the functions of a method give.

A loaded module has two functions for every method of its endpoint.  Called with instances of the
method's structures, the one gives the path with every parameter filled in and the rest of the
query behind it, and the other puts the verb, this URI, the headers and the body together.  Only a
whole number that has too many digits for the URI or the headers is refused.
-/

namespace EndpointDsl
namespace Wire

open Client (ClassDef FieldDef FunctionDef Module Param PathValue Purpose)
open Schema (Endpoint Method Struct Field)

/-- There is an argument for every role of the method that is sent. -/
def Supplied (module : Module) (m : Method) (x : Role → Value) : Prop :=
  ∀ role s, role ≠ .response → m.findRole? (some role) = some s → Argument module m s (x role)

/-- The URI of a method: the template with the texts of its parameters, percent-encoded, and the
query fields that are not among them. -/
def IsUri (module : Module) (m : Method) (x : Role → Value) (uri : String) : Prop :=
  ∃ (text : String → String) (document : Field → Json) (pairs : List (String × String)),
    (∀ p ∈ m.path.parameters, ParameterText module m x p (text p)) ∧
    (∀ s, m.findRole? (some .query) = some s → ∀ f ∈ s.fields,
      WritesAttribute module (x .query) (Name.attributeName f.name) (document f)) ∧
    queryPairs? (queryParams m document) = some pairs ∧
    uri = withQuery (m.path.filled fun p => Text.percentEncoded (text p)) pairs

/-- Every whole number that stands in the URI of a method can be written. -/
structure UriWritable (module : Module) (m : Method) (x : Role → Value) : Prop where
  path : ∀ p ∈ m.path.parameters, ∀ v, ParameterValue module m x p v → v.isWritable = true
  query : ∀ s, m.findRole? (some .query) = some s → ∀ f ∈ s.fields,
    f.name ∉ m.path.parameters →
      ∀ j, WritesAttribute module (x .query) (Name.attributeName f.name) j → isWritableJson j = true

/-- There is an argument for every role that the URI of the method is made from. -/
def SuppliedUri (module : Module) (m : Method) (x : Role → Value) : Prop :=
  ∀ role ∈ m.uriRoles, ∀ s, m.findRole? (some role) = some s → Argument module m s (x role)

def IsHeaders (module : Module) (m : Method) (x : Role → Value)
    (headers : List (String × String)) : Prop :=
  if m.hasRole .header then encodeHeaders module (x .header) = .ok headers else headers = []

/-- Every whole number that stands in the headers of a method can be written. -/
def HeadersWritable (module : Module) (m : Method) (x : Role → Value) : Prop :=
  m.hasRole .header = true → ∀ j, encodeInstance module (x .header) = .ok j → isWritableJson j = true

def IsBody (module : Module) (m : Method) (x : Role → Value) (body : Json) : Prop :=
  match m.bodyRole? with
  | some role => encodeInstance module (x role) = .ok body
  | none => body = .null

/-! ## Arguments by role -/

section

variable {m : Method} {x : Role → Value} {roles : List Role}

theorem bindArgs_paramsFor (m : Method) (x : Role → Value) (roles : List Role) :
    bindArgs (Client.paramsFor m roles) ((roles.filter m.hasRole).map x) =
      .ok ((roles.filter m.hasRole).map fun role => (role, x role)) := by
  induction roles with
  | nil => rfl
  | cons role rest ih =>
    cases hs : m.findRole? (some role) with
    | none =>
      have hnot : ¬ m.hasRole role = true := by simp [Method.hasRole, hs]
      rw [List.filter_cons_of_neg hnot, Client.paramsFor, List.filterMap_cons, hs]
      exact ih
    | some s =>
      have hhas : m.hasRole role = true := by simp [Method.hasRole, hs]
      rw [List.filter_cons_of_pos hhas, Client.paramsFor, List.filterMap_cons, hs]
      show (do return (role, x role) :: (← bindArgs (Client.paramsFor m rest) _)) = _
      rw [ih]
      rfl

theorem argument_of_mem {role : Role} (h : role ∈ roles) :
    argument (roles.map fun role => (role, x role)) role = .ok (x role) := by
  induction roles with
  | nil => cases h
  | cons first rest ih =>
    unfold argument
    rw [List.map_cons, List.find?_cons]
    by_cases heq : first = role
    · subst heq
      rw [beq_self_eq_true]
    · rw [beq_false_of_ne heq]
      exact ih ((List.mem_cons.mp h).resolve_left fun h => heq h.symm)

theorem mapM_argument {given : List Role} (h : ∀ role ∈ given, role ∈ roles) :
    given.mapM (argument (roles.map fun role => (role, x role))) = .ok (given.map x) := by
  rw [mapM_eq_ok_iff, List.forall₂_map_right_iff, List.forall₂_same]
  exact fun role hrole => argument_of_mem (h role hrole)

theorem mem_uriRoles {role : Role} (h : role ∈ m.uriRoles) :
    role ∈ Schema.pathRoles ∧ m.hasRole role = true := by
  obtain ⟨hpath, hrole⟩ := List.mem_filter.mp h
  refine ⟨hpath, ?_⟩
  unfold Method.hasRole
  split at hrole
  · next s hs => rw [hs]; rfl
  · cases hrole

theorem mem_uriRoles_of_covers {role : Role} {p : String} (hp : p ∈ m.path.parameters)
    (h : m.Covers role p) : role ∈ m.uriRoles := by
  obtain ⟨hpath, s, hs, hname⟩ := h
  obtain ⟨f, hf, rfl⟩ := List.mem_map.mp hname
  refine List.mem_filter.mpr ⟨hpath, ?_⟩
  rw [hs, Bool.or_eq_true, List.any_eq_true]
  exact Or.inr ⟨f, hf, List.contains_iff_mem.mpr hp⟩

theorem query_mem_uriRoles {s : Struct} (hs : m.findRole? (some .query) = some s) :
    .query ∈ m.uriRoles :=
  List.mem_filter.mpr ⟨by decide, by rw [hs]; rfl⟩

theorem filter_uriRoles (m : Method) : m.uriRoles.filter m.hasRole = m.uriRoles :=
  List.filter_eq_self.mpr fun _ hrole => (mem_uriRoles hrole).2

theorem mem_requestRoles_of_mem_uriRoles {role : Role} (h : role ∈ m.uriRoles) :
    role ∈ m.requestRoles := by
  obtain ⟨hpath, hhas⟩ := mem_uriRoles h
  refine List.mem_filter.mpr ⟨?_, hhas⟩
  revert hpath
  cases role <;> decide

end

/-! ## Instances of the structures of a method -/

/-- A method whose functions a module has. -/
structure Offers (module : Module) (e : Endpoint) (m : Method) : Prop where
  wellFormed : e.WellFormed
  made : ∃ unit, Client.ofEndpoint unit (Schema.resolveEndpoint e) = .ok module
  mem : m ∈ e.methods
  spells : PathTemplate.Spells m.path.segments m.path.raw.toList
  names : ∀ role s, m.findRole? (some role) = some s → ∀ f ∈ s.fields,
    isIdent f.name.toList = true

/-- No field of a structure that the URI of the method is made from is hidden by a builder
method. -/
def UriApart (module : Module) (m : Method) : Prop :=
  ∀ role ∈ m.uriRoles, ∀ s, m.findRole? (some role) = some s →
    ∀ c ∈ module.classes, c.name = m.className s.name → BuilderApart c

section

variable {module : Module} {e : Endpoint} {m : Method} {x : Role → Value}

/-- The structure of a role has its class in the module. -/
theorem Offers.exists_class (h : Offers module e m) {role : Role} {s : Struct}
    (hs : m.findRole? (some role) = some s) :
    ∃ c, module.class? (m.className s.name) = some c ∧ c.base ≠ .enum ∧
      List.Forall₂ (DeclaredAs s) s.fields c.fields := by
  obtain ⟨unit, hmade⟩ := h.made
  obtain ⟨m', hm', hresolves⟩ :=
    exists_of_mem_forall₂_left (Schema.resolves_resolveEndpoint h.wellFormed) h.mem
  obtain ⟨s', hs', hstruct⟩ : ∃ s', m'.findRole? (some role) = some s' ∧ s.Resolves s' := by
    rcases Schema.findRole?_resolves hresolves (some role) with ⟨hnone, -⟩ | ⟨t, t', ht, ht', htt⟩
    · rw [hs] at hnone
      cases hnone
    · rw [hs] at ht
      cases ht
      exact ⟨t', ht', htt⟩
  obtain ⟨className, c, hfound, hclass⟩ :=
    Client.exists_class? h.wellFormed hmade hm' (Schema.mem_items_of_findRole? hs')
  have hclassName : m.className s.name = m'.className s'.name := by
    obtain ⟨items, -, rfl⟩ := hresolves
    rw [hstruct.name]
    rfl
  have hfound' : module.class? (m.className s.name) = some c := by
    rw [hclassName]
    exact hfound
  obtain ⟨base, fields, hbase, hfields, rfl⟩ := Client.structClass_eq_ok_iff.mp hclass
  refine ⟨_, hfound', Client.structBase_ne_enum hbase, ?_⟩
  exact forall₂_comp hstruct.fields (mapM_eq_ok_iff.mp hfields)
    fun f f' d hf hd => declaredAs_of_fieldDef hf hd

theorem Offers.exists_instance (h : Offers module e m) {role : Role} {s : Struct} {v : Value}
    (hs : m.findRole? (some role) = some s)
    (hapart : ∀ c ∈ module.classes, c.name = m.className s.name → BuilderApart c)
    (hv : Argument (settled module) m s v) :
    ∃ c value, InstanceOf (settled module) s c value v := by
  obtain ⟨unit, hmade⟩ := h.made
  have hlawful : ∀ d ∈ module.classes, d.Lawful := fun d hd =>
    Client.lawful_of_ofEndpoint h.wellFormed hmade hd
  obtain ⟨c, hfound, hbase, hdeclared⟩ := h.exists_class hs
  have hmem : c ∈ module.classes := List.mem_of_find?_eq_some hfound
  have hsettled : settledClass c = c :=
    settledClass_of_builderApart (hapart c hmem (name_of_class? hfound))
  -- The instance is one of this very class, since class names differ.
  obtain ⟨d, hd, hname⟩ := hv.ofClass
  obtain ⟨hdfound, hfits⟩ :=
    fits_of_classOf? (sound_of_obtained (attrsDiffer_settled hlawful) hv.obtained) hd
  have hdc : d = c := by
    rw [class?_settled, hname, hfound, Option.map_some, hsettled] at hdfound
    exact (Option.some.inj hdfound).symm
  subst hdc
  cases hfits with
  | struct hc hnot hvalues =>
    cases hdfound.symm.trans hc
    exact ⟨_, _, hdfound, hlawful _ hmem, hdeclared, rfl, hvalues⟩
  | choice hc henum hf hneeded hpayload =>
    cases hdfound.symm.trans hc
    exact absurd henum hbase

/-- Every path parameter is an identifier and has a scalar for its value. -/
theorem Offers.exists_values (h : Offers module e m) (hapart : UriApart module m)
    (hx : SuppliedUri (settled module) m x) :
    ∃ value : String → Value, ∀ p ∈ m.path.parameters, isIdent p.toList = true ∧
      (∃ kind, Schema.Scalar.Holds kind (value p)) ∧
      ParameterValue (settled module) m x p (value p) := by
  have hall : ∀ p ∈ m.path.parameters, ∃ held, isIdent p.toList = true ∧
      (∃ kind, Schema.Scalar.Holds kind held) ∧ ParameterValue (settled module) m x p held := by
    intro p hp
    obtain ⟨role, hpath, s, f, scalar, hs, hf, rfl, htype, honly⟩ :=
      Schema.exists_covers (h.wellFormed.methods m h.mem) hp
    have hcovers : m.Covers role f.name := ⟨hpath, s, hs, List.mem_map.mpr ⟨f, hf, rfl⟩⟩
    have hrole := mem_uriRoles_of_covers hp hcovers
    obtain ⟨c, value, hinstance⟩ :=
      h.exists_instance hs (hapart role hrole s hs) (hx role hrole s hs)
    obtain ⟨kind, held, hholds, hheld⟩ := exists_scalar hinstance hf htype hcovers honly
    exact ⟨held, h.names role s hs f hf, ⟨kind, hholds⟩, hheld⟩
  choose! value hvalue using hall
  exact ⟨value, hvalue⟩

/-! ## URIs -/

section

variable {value : String → Value} {params : List String}

theorem pathValues_eq_ok {args : List (Role × Value)} {values : List PathValue}
    (hvalues : List.Forall₂ (fun p v => Client.pathValue m p = .ok v) params values)
    (hargs : ∀ p ∈ params, ∀ role, m.Covers role p → argument args role = .ok (x role))
    (hheld : ∀ p ∈ params, ParameterValue module m x p (value p)) :
    pathValues module args values = .ok (params.map fun p => (p, value p)) := by
  induction hvalues with
  | nil => rfl
  | @cons p v params values hv _ ih =>
    obtain ⟨hargs, hargsRest⟩ := List.forall_mem_cons.mp hargs
    obtain ⟨hfirst, hheldRest⟩ := List.forall_mem_cons.mp hheld
    obtain ⟨hparameter, hattr, hcovers⟩ := Client.pathValue_eq_ok hv
    obtain ⟨role, -, honly, hattribute⟩ := hfirst
    obtain rfl := honly _ hcovers
    rw [pathValues, hargs _ hcovers, hattr, hparameter]
    show (do let v ← member (attribute? module (x v.role) (Name.attributeName p)); _) = _
    rw [hattribute, ih hargsRest hheldRest]
    rfl

theorem pathTexts_cons {p : String} {v : Value} {rest : List (String × Value)} (hv : v ≠ .null) :
    pathTexts module ((p, v) :: rest) =
      match pathText? module v with
      | some text => do return (p, text) :: (← pathTexts module rest)
      | none => .error (if v.isWritable then .noPathText else .numeralTooLong) := by
  cases v with
  | null => exact absurd rfl hv
  | _ => rfl

/-- Scalars have texts, and if one of them has none it is a whole number that is too long. -/
theorem pathTexts_of_holds (hholds : ∀ p ∈ params, ∃ kind, Schema.Scalar.Holds kind (value p)) :
    ((∀ p ∈ params, (value p).isWritable = true) → ∃ text : String → String,
      (∀ p ∈ params, pathText? module (value p) = some (text p)) ∧
      pathTexts module (params.map fun p => (p, value p)) = .ok (params.map fun p => (p, text p))) ∧
    ((¬ ∀ p ∈ params, (value p).isWritable = true) →
      pathTexts module (params.map fun p => (p, value p)) = .error .numeralTooLong) := by
  have htexts : ∀ p ∈ params, (value p).isWritable = true →
      ∃ text, pathText? module (value p) = some text := fun p hp hwritable =>
    let ⟨_, hkind⟩ := hholds p hp
    exists_pathText? hkind hwritable
  constructor
  · intro hwritable
    choose! text htext using fun p hp => htexts p hp (hwritable p hp)
    refine ⟨text, htext, ?_⟩
    clear hwritable htexts
    induction params with
    | nil => rfl
    | cons p rest ih =>
      obtain ⟨⟨kind, hkind⟩, hholdsRest⟩ := List.forall_mem_cons.mp hholds
      obtain ⟨hfirst, htextRest⟩ := List.forall_mem_cons.mp htext
      rw [List.map_cons, pathTexts_cons (ne_null_of_holds hkind), hfirst, ih hholdsRest htextRest]
      rfl
  · intro hlong
    induction params with
    | nil => exact absurd nofun hlong
    | cons p rest ih =>
      obtain ⟨⟨kind, hkind⟩, hholdsRest⟩ := List.forall_mem_cons.mp hholds
      obtain ⟨hfirst, htextsRest⟩ := List.forall_mem_cons.mp htexts
      rw [List.map_cons, pathTexts_cons (ne_null_of_holds hkind)]
      by_cases hp : (value p).isWritable = true
      · obtain ⟨text, htext⟩ := hfirst hp
        rw [htext, ih hholdsRest htextsRest fun hrest =>
          hlong (List.forall_mem_cons.mpr ⟨hp, hrest⟩)]
        rfl
      · rw [pathText?, if_neg hp, if_neg hp]

end

/-- The functions of a method are found in the loaded module. -/
theorem Offers.exists_functions (h : Offers module e m) :
    ∃ values uriDoc requestDoc, m.path.parameters.mapM (Client.pathValue m) = .ok values ∧
      (settled module).function? (Purpose.uri.functionName m.identifier) =
        some ⟨Purpose.uri.functionName m.identifier, uriDoc,
          .uri (Client.paramsFor m m.uriRoles) m.path.raw values
            ((m.findRole? (some .query)).map (Client.pathKeys m))⟩ ∧
      (settled module).function? (Purpose.request.functionName m.identifier) =
        some ⟨Purpose.request.functionName m.identifier, requestDoc,
          .request (Client.paramsFor m [.query, .request, .reqRes, .header]) m.verb
            (Purpose.uri.functionName m.identifier) m.uriRoles (m.hasRole .header)
            m.bodyRole?⟩ := by
  obtain ⟨unit, hmade⟩ := h.made
  exact (Client.exists_function? h.wellFormed hmade h.mem :)

theorem Offers.pathOf (h : Offers module e m) {text : String → String}
    (hidents : ∀ p ∈ m.path.parameters, isIdent p.toList = true) :
    Wire.pathOf m.path.raw (m.path.parameters.map fun p => (p, text p)) =
      .ok (m.path.filled fun p => Text.percentEncoded (text p)) := by
  have hnames : ((m.path.parameters.map fun p => (p, text p)).map (·.1)).Nodup := by
    rw [List.map_map]
    simpa [Function.comp_def] using (h.wellFormed.methods m h.mem).parameters
  have hfilled := substitutePath_eq_filled h.spells fun p hp =>
    ⟨hidents p hp, lookup?_of_mem hnames (List.mem_map.mpr ⟨p, hp, rfl⟩)⟩
  rw [Wire.pathOf, hfilled]

/-- The path with the query behind it, if there is one. -/
def pathWithQuery (module : Module) (query : Option (List String)) (args : List (Role × Value))
    (path : String) : Use String :=
  match query with
  | none => .ok path
  | some exclude => do
    let entries ← entriesOf (← encodeInstance module (← argument args .query))
    written (appendQuery? path entries exclude)

theorem pathWithQuery_of_encodes {args : List (Role × Value)} {v : Value}
    {entries : List (String × Json)} (hargument : argument args .query = .ok v)
    (hencode : encodeInstance module v = .ok (.object entries)) (exclude : List String)
    (path : String) :
    pathWithQuery module (some exclude) args path = written (appendQuery? path entries exclude) := by
  rw [pathWithQuery, hargument]
  show (do let document ← encodeInstance module v; _) = _
  rw [hencode]
  rfl

/-- Once the values of the parameters are known, the path is made of their texts. -/
theorem uriOf_eq {template : String} {values : List PathValue} {query : Option (List String)}
    {args : List (Role × Value)} {given : List (String × Value)}
    (hgiven : pathValues module args values = .ok given) :
    uriOf module template values query args =
      pathTexts module given >>= fun texts => Wire.pathOf template texts >>=
        pathWithQuery module query args := by
  rw [uriOf, hgiven]
  rfl

theorem Supplied.uri (hx : Supplied module m x) : SuppliedUri module m x := by
  intro role hrole s hs
  refine hx role s ?_ hs
  rintro rfl
  have hpath := (mem_uriRoles hrole).1
  revert hpath
  decide

/-- A function for URIs binds its arguments and makes the URI from them. -/
theorem callUri_eq_uriOf {name doc template : String} {values : List PathValue}
    {query : Option (List String)}
    (hfunction : module.function? name =
      some ⟨name, doc, .uri (Client.paramsFor m m.uriRoles) template values query⟩) :
    Wire.callUri module name (m.uriRoles.map x) =
      uriOf module template values query (m.uriRoles.map fun role => (role, x role)) := by
  have hbound := bindArgs_paramsFor m x m.uriRoles
  rw [filter_uriRoles] at hbound
  rw [Wire.callUri, hfunction]
  show (do uriOf _ _ _ _ (← bindArgs (Client.paramsFor m m.uriRoles) (m.uriRoles.map x))) = _
  rw [hbound]
  rfl

/-- What the URI function of a method gives is made of the values of its path parameters and the
documents of its query fields. -/
theorem Offers.exists_callUri (h : Offers module e m) (hapart : UriApart module m)
    (hx : SuppliedUri (settled module) m x) :
    ∃ (value : String → Value) (document : Field → Json),
      (∀ p ∈ m.path.parameters, isIdent p.toList = true ∧
        (∃ kind, Schema.Scalar.Holds kind (value p)) ∧
        ParameterValue (settled module) m x p (value p)) ∧
      (∀ s, m.findRole? (some .query) = some s → ∀ f ∈ s.fields,
        WritesAttribute (settled module) (x .query) (Name.attributeName f.name) (document f)) ∧
      Wire.callUri (settled module) (Purpose.uri.functionName m.identifier) (m.uriRoles.map x) =
        pathTexts (settled module) (m.path.parameters.map fun p => (p, value p)) >>= fun texts =>
          Wire.pathOf m.path.raw texts >>= fun path =>
            written ((queryPairs? (queryParams m document)).map (withQuery path)) := by
  obtain ⟨values, uriDoc, -, hvalues, hfunction, -⟩ := h.exists_functions
  obtain ⟨value, hvalue⟩ := h.exists_values hapart hx
  have hgiven := pathValues_eq_ok (mapM_eq_ok_iff.mp hvalues)
    (fun p hp role hcovers => argument_of_mem (mem_uriRoles_of_covers hp hcovers))
    (fun p hp => (hvalue p hp).2.2)
  cases hs : m.findRole? (some .query) with
  | none =>
    refine ⟨value, fun _ => .null, hvalue, nofun, ?_⟩
    rw [callUri_eq_uriOf hfunction, uriOf_eq hgiven, hs, queryParams, hs]
    rfl
  | some s =>
    have hrole := query_mem_uriRoles hs
    have hv := hx .query hrole s hs
    obtain ⟨c, fieldValue, hinstance⟩ := h.exists_instance hs (hapart .query hrole s hs) hv
    obtain ⟨j, hj⟩ := hv.encodes
    obtain ⟨entries, document, rfl, hwrites, hpairs⟩ := hinstance.appendQuery? hs hj
    refine ⟨value, document, hvalue, fun t ht => ?_, ?_⟩
    · cases ht
      exact hwrites
    · have hbehind : pathWithQuery (settled module) (some (Client.pathKeys m s))
          (m.uriRoles.map fun role => (role, x role)) = fun path =>
            written ((queryPairs? (queryParams m document)).map (withQuery path)) := by
        funext path
        rw [pathWithQuery_of_encodes (argument_of_mem hrole) hj, hpairs]
      rw [callUri_eq_uriOf hfunction, uriOf_eq hgiven, hs, Option.map_some, hbehind]

theorem ParameterValue.unique {p : String} {v w : Value} (hv : ParameterValue module m x p v)
    (hw : ParameterValue module m x p w) : v = w := by
  obtain ⟨role, -, honly, hv⟩ := hv
  obtain ⟨other, hcovers, -, hw⟩ := hw
  obtain rfl := honly other hcovers
  exact Option.some.inj (hv.symm.trans hw)

theorem WritesAttribute.unique {v : Value} {attr : String} {j k : Json}
    (hj : WritesAttribute module v attr j) (hk : WritesAttribute module v attr k) : j = k := by
  obtain ⟨c, f, held, hc, hf, hheld, hj⟩ := hj
  obtain ⟨c', f', held', hc', hf', hheld', hk⟩ := hk
  cases hc.symm.trans hc'
  cases hf.symm.trans hf'
  cases hheld.symm.trans hheld'
  exact Except.ok.inj (hj.symm.trans hk)

/-- What the URI shows can be written if the values and documents that it is made of can. -/
theorem uriWritable_iff {value : String → Value} {document : Field → Json}
    (hvalue : ∀ p ∈ m.path.parameters, ParameterValue module m x p (value p))
    (hdocument : ∀ s, m.findRole? (some .query) = some s → ∀ f ∈ s.fields,
      WritesAttribute module (x .query) (Name.attributeName f.name) (document f)) :
    UriWritable module m x ↔ (∀ p ∈ m.path.parameters, (value p).isWritable = true) ∧
      ∀ q ∈ queryParams m document, isWritableJson q.2 = true := by
  constructor
  · intro h
    refine ⟨fun p hp => h.path p hp _ (hvalue p hp), fun q hq => ?_⟩
    rw [queryParams] at hq
    split at hq
    · cases hq
    · next s hs =>
      obtain ⟨f, hf, rfl⟩ := List.mem_map.mp hq
      obtain ⟨hf, hnot⟩ := List.mem_filter.mp hf
      exact h.query s hs f hf (by simpa using hnot) _ (hdocument s hs f hf)
  · rintro ⟨hpath, hquery⟩
    refine ⟨fun p hp v hv => ?_, fun s hs f hf hnot j hj => ?_⟩
    · rw [hv.unique (hvalue p hp)]
      exact hpath p hp
    · rw [hj.unique (hdocument s hs f hf)]
      refine hquery (s.wire f, document f) ?_
      rw [queryParams, hs]
      exact List.mem_map.mpr ⟨f, List.mem_filter.mpr ⟨hf, by simpa using hnot⟩, rfl⟩

/-- The URI function of a method gives its URI, unless a whole number in it is too long. -/
theorem Offers.callUri (h : Offers module e m) (hapart : UriApart module m)
    (hx : SuppliedUri (settled module) m x) :
    (UriWritable (settled module) m x → ∃ uri, IsUri (settled module) m x uri ∧
      Wire.callUri (settled module) (Purpose.uri.functionName m.identifier) (m.uriRoles.map x) =
        .ok uri) ∧
    (¬ UriWritable (settled module) m x →
      Wire.callUri (settled module) (Purpose.uri.functionName m.identifier) (m.uriRoles.map x) =
        .error .numeralTooLong) := by
  obtain ⟨value, document, hvalue, hdocument, hcall⟩ := h.exists_callUri hapart hx
  obtain ⟨htexts, hlong⟩ := @pathTexts_of_holds (settled module) value m.path.parameters
    fun p hp => (hvalue p hp).2.1
  rw [hcall, uriWritable_iff (fun p hp => (hvalue p hp).2.2) hdocument]
  constructor
  · rintro ⟨hpath, hquery⟩
    obtain ⟨text, htext, hgiven⟩ := htexts hpath
    obtain ⟨pairs, hpairs⟩ := exists_queryPairs?_iff.mpr hquery
    refine ⟨_, ⟨text, document, pairs, fun p hp => ?_, hdocument, hpairs, rfl⟩, ?_⟩
    · obtain ⟨-, ⟨kind, hkind⟩, hheld⟩ := hvalue p hp
      exact ⟨value p, hheld, ne_null_of_holds hkind, htext p hp⟩
    · rw [hgiven, hpairs]
      refine bind_eq_ok_iff.mpr ⟨_, rfl, ?_⟩
      exact bind_eq_ok_iff.mpr ⟨_, h.pathOf fun p hp => (hvalue p hp).1, rfl⟩
  · intro hnot
    by_cases hpath : ∀ p ∈ m.path.parameters, (value p).isWritable = true
    · obtain ⟨text, -, hgiven⟩ := htexts hpath
      have hnone : queryPairs? (queryParams m document) = none := by
        rw [Option.eq_none_iff_forall_ne_some]
        exact fun pairs hpairs => hnot ⟨hpath, exists_queryPairs?_iff.mp ⟨pairs, hpairs⟩⟩
      have hfilled := @Offers.pathOf module e m h text fun p hp => (hvalue p hp).1
      rw [hgiven, hnone]
      show (Wire.pathOf m.path.raw _ >>= fun path => written none) = _
      rw [hfilled]
      rfl
    · rw [hlong hpath]
      rfl

/-- A call of the URI function gives the URI as a text. -/
theorem Offers.call_uri (h : Offers module e m) (args : List Value) :
    call (settled module) (Purpose.uri.functionName m.identifier) args =
      Wire.callUri (settled module) (Purpose.uri.functionName m.identifier) args >>= fun uri =>
        .ok (.value (.text uri)) := by
  obtain ⟨values, uriDoc, -, -, hfunction, -⟩ := h.exists_functions
  rw [call, hfunction]
  rfl

/-! ## Requests -/

theorem mem_requestRoles {role : Role} {s : Struct} (hs : m.findRole? (some role) = some s)
    (hrole : role ≠ .response) : role ∈ m.requestRoles := by
  refine List.mem_filter.mpr ⟨?_, by rw [Method.hasRole, hs]; rfl⟩
  revert hrole
  cases role <;> decide

theorem bodyOf_of_instance {s : Struct} {c : ClassDef} {value : FieldDef → Value} {v : Value}
    (h : InstanceOf module s c value v) : bodyOf module v = encodeInstance module v := by
  rw [h.made]
  rfl

def headersFrom (module : Module) (hasHeader : Bool) (args : List (Role × Value)) :
    Use (List (String × String)) :=
  if hasHeader then do encodeHeaders module (← argument args .header) else pure []

def bodyFrom (module : Module) (body : Option Role) (args : List (Role × Value)) : Use Json :=
  match body with
  | some role => do bodyOf module (← argument args role)
  | none => pure .null

/-- A request is put together part by part. -/
theorem requestOf_eq (verb : Verb) (uriFunction : String) (uriRoles : List Role)
    (hasHeader : Bool) (body : Option Role) (args : List (Role × Value)) :
    requestOf module verb uriFunction uriRoles hasHeader body args = (do
      let uri ← Wire.callUri module uriFunction (← uriRoles.mapM (argument args))
      let headers ← headersFrom module hasHeader args
      let body ← bodyFrom module body args
      return { method := verb.name, uri, headers, body }) := by
  unfold requestOf headersFrom bodyFrom
  cases hasHeader <;> cases body <;> simp

theorem isNull_or_exists_headerText? {j : Json} :
    isWritableJson j = true ↔ isNull j = true ∨ ∃ text, headerText? j = some text := by
  cases j with
  | null => exact iff_of_true rfl (Or.inl rfl)
  | array items =>
    rw [isWritableJson, areWritableItems_iff, or_iff_right (show ¬ isNull (.array items) = true from
      Bool.false_ne_true)]
    have hitems : (∃ texts, items.mapM scalarText? = some texts) ↔
        ∀ j ∈ items, isWritableJson j = true := by
      rw [exists_mapM_eq_some_iff]
      exact forall₂_congr fun j hj => exists_scalarText?_iff
    rw [← hitems]
    constructor
    · rintro ⟨texts, h⟩
      exact ⟨_, by rw [headerText?, h]; rfl⟩
    · rintro ⟨text, h⟩
      obtain ⟨texts, htexts, -⟩ := Option.map_eq_some_iff.mp h
      exact ⟨texts, htexts⟩
  | _ => exact (exists_scalarText?_iff.symm.trans (or_iff_right Bool.false_ne_true).symm :)

/-- Entries have headers unless a whole number in one of them is too long. -/
theorem exists_headersOf?_iff {entries : List (String × Json)} :
    (∃ headers, headersOf? entries = some headers) ↔ isWritableJson (.object entries) = true := by
  rw [headersOf?, exists_mapM_eq_some_iff, isWritableJson, areWritableFields_iff]
  have htext : ∀ e : String × Json, (∃ header, (headerText? e.2).map (e.1, ·) = some header) ↔
      ∃ text, headerText? e.2 = some text := by
    intro e
    constructor
    · rintro ⟨header, h⟩
      obtain ⟨text, htext, -⟩ := Option.map_eq_some_iff.mp h
      exact ⟨text, htext⟩
    · rintro ⟨text, h⟩
      exact ⟨(e.1, text), by rw [h]; rfl⟩
  constructor
  · intro h e he
    rw [isNull_or_exists_headerText?]
    cases hnull : isNull e.2 with
    | true => exact Or.inl rfl
    | false => exact Or.inr ((htext e).mp (h e (List.mem_filter.mpr ⟨he, by rw [hnull]; rfl⟩)))
  · intro h e he
    obtain ⟨he, hnull⟩ := List.mem_filter.mp he
    have hshown := isNull_or_exists_headerText?.mp (h e he)
    exact (htext e).mpr (hshown.resolve_left (by simpa using hnull))

theorem encodeHeaders_of_encodes {v : Value} {entries : List (String × Json)}
    (hencode : encodeInstance module v = .ok (.object entries)) :
    encodeHeaders module v = written (headersOf? entries) := by
  rw [encodeHeaders, hencode]
  rfl

/-- The headers of a method are those of its header instance, unless a whole number in them is too
long. -/
theorem Offers.headersFrom (h : Offers module e m) (hapart : ∀ c ∈ module.classes, BuilderApart c)
    (hx : Supplied (settled module) m x) :
    (HeadersWritable (settled module) m x → ∃ headers,
      IsHeaders (settled module) m x headers ∧ Wire.headersFrom (settled module) (m.hasRole .header)
        (m.requestRoles.map fun role => (role, x role)) = .ok headers) ∧
    (¬ HeadersWritable (settled module) m x →
      Wire.headersFrom (settled module) (m.hasRole .header)
        (m.requestRoles.map fun role => (role, x role)) = .error .numeralTooLong) := by
  cases hs : m.findRole? (some .header) with
  | none =>
    have hnot : ¬ m.hasRole .header = true := by simp [Method.hasRole, hs]
    refine ⟨fun _ => ⟨[], ?_, ?_⟩, fun hlong => absurd (fun hhas => absurd hhas hnot) hlong⟩
    · rw [IsHeaders, if_neg hnot]
    · rw [Wire.headersFrom, if_neg hnot]
      rfl
  | some s =>
    have hhas : m.hasRole .header = true := by simp [Method.hasRole, hs]
    have hv := hx .header s nofun hs
    obtain ⟨c, value, hinstance⟩ := h.exists_instance hs (fun c hc _ => hapart c hc) hv
    obtain ⟨j, hj⟩ := hv.encodes
    obtain ⟨document, -, hobject, -⟩ := hinstance.entries hj
    rw [hobject] at hj
    have hheaders := encodeHeaders_of_encodes hj
    have hfrom : Wire.headersFrom (settled module) (m.hasRole .header)
        (m.requestRoles.map fun role => (role, x role)) =
          encodeHeaders (settled module) (x .header) := by
      rw [Wire.headersFrom, if_pos hhas, argument_of_mem (mem_requestRoles hs nofun)]
      rfl
    rw [hfrom, hheaders]
    constructor
    · intro hwritable
      obtain ⟨headers, hsome⟩ := exists_headersOf?_iff.mpr (hwritable hhas _ hj)
      rw [hsome] at hheaders ⊢
      refine ⟨headers, ?_, rfl⟩
      rw [IsHeaders, if_pos hhas]
      exact hheaders
    · intro hlong
      cases hsome : headersOf? _ with
      | none => rfl
      | some headers =>
        refine absurd (fun _ k hk => ?_) hlong
        rw [Except.ok.inj (hk.symm.trans hj)]
        exact exists_headersOf?_iff.mp ⟨headers, hsome⟩

theorem Offers.bodyFrom (h : Offers module e m) (hapart : ∀ c ∈ module.classes, BuilderApart c)
    (hx : Supplied (settled module) m x) :
    ∃ body, IsBody (settled module) m x body ∧
      Wire.bodyFrom (settled module) m.bodyRole?
        (m.requestRoles.map fun role => (role, x role)) = .ok body := by
  unfold IsBody
  cases hrole : m.bodyRole? with
  | none => exact ⟨.null, rfl, rfl⟩
  | some role =>
    have hhas := List.find?_some hrole
    obtain ⟨s, hs⟩ := Option.isSome_iff_exists.mp hhas
    have hne : role ≠ .response := by
      rintro rfl
      have hmem := List.mem_of_find?_eq_some hrole
      revert hmem
      decide
    have hv := hx role s hne hs
    obtain ⟨c, value, hinstance⟩ := h.exists_instance hs (fun c hc _ => hapart c hc) hv
    obtain ⟨j, hj⟩ := hv.encodes
    refine ⟨j, hj, bind_eq_ok_iff.mpr ⟨_, argument_of_mem (mem_requestRoles hs hne), ?_⟩⟩
    exact (bodyOf_of_instance hinstance).trans hj

/-- A call of the request function puts the URI, the headers and the body together. -/
theorem Offers.call_request (h : Offers module e m) :
    call (settled module) (Purpose.request.functionName m.identifier) (m.requestRoles.map x) =
      Wire.callUri (settled module) (Purpose.uri.functionName m.identifier) (m.uriRoles.map x) >>=
        fun uri => Wire.headersFrom (settled module) (m.hasRole .header)
          (m.requestRoles.map fun role => (role, x role)) >>=
        fun headers => Wire.bodyFrom (settled module) m.bodyRole?
          (m.requestRoles.map fun role => (role, x role)) >>=
        fun body => .ok (.request { method := m.verb.name, uri, headers, body }) := by
  obtain ⟨-, -, requestDoc, -, -, hfunction⟩ := h.exists_functions
  have hgiven := @mapM_argument x m.requestRoles m.uriRoles
    fun role hrole => mem_requestRoles_of_mem_uriRoles hrole
  have hbound := bindArgs_paramsFor m x [.query, .request, .reqRes, .header]
  rw [call, hfunction]
  show (do return Held.request (← requestOf _ _ _ _ _ _ (← bindArgs
    (Client.paramsFor m [.query, .request, .reqRes, .header]) (m.requestRoles.map x)))) = _
  rw [Method.requestRoles, hbound]
  show (do return Held.request (← requestOf _ _ _ _ _ _ (m.requestRoles.map _))) = _
  rw [requestOf_eq, hgiven]
  simp only [bind_assoc, pure_bind]
  rfl

/-- The request function of a method gives its request, unless a whole number that stands in the URI
or in the headers is too long. -/
theorem Offers.callRequest (h : Offers module e m) (hapart : ∀ c ∈ module.classes, BuilderApart c)
    (hx : Supplied (settled module) m x) :
    (∀ uri, Wire.callUri (settled module) (Purpose.uri.functionName m.identifier)
        (m.uriRoles.map x) = .ok uri →
      HeadersWritable (settled module) m x →
      ∃ headers body, IsHeaders (settled module) m x headers ∧ IsBody (settled module) m x body ∧
        call (settled module) (Purpose.request.functionName m.identifier) (m.requestRoles.map x) =
          .ok (.request { method := m.verb.name, uri, headers, body })) ∧
    (¬ (UriWritable (settled module) m x ∧ HeadersWritable (settled module) m x) →
      call (settled module) (Purpose.request.functionName m.identifier) (m.requestRoles.map x) =
        .error .numeralTooLong) := by
  obtain ⟨hheaders, hlongHeaders⟩ := h.headersFrom hapart hx
  obtain ⟨body, hbody, hgivenBody⟩ := h.bodyFrom hapart hx
  obtain ⟨huri, hlongUri⟩ := h.callUri (fun _ _ _ _ c hc _ => hapart c hc) hx.uri
  rw [h.call_request]
  constructor
  · intro uri hcall hwritable
    obtain ⟨headers, hheaders, hgiven⟩ := hheaders hwritable
    rw [hcall, hgiven, hgivenBody]
    exact ⟨headers, body, hheaders, hbody, rfl⟩
  · intro hlong
    by_cases hwritable : UriWritable (settled module) m x
    · obtain ⟨uri, -, hcall⟩ := huri hwritable
      rw [hcall, hlongHeaders fun hheaders => hlong ⟨hwritable, hheaders⟩]
      rfl
    · rw [hlongUri hwritable]
      rfl

end

/-- For every method of a source that compiles there is a module that has its functions. -/
theorem offers_of_compile {text unit : String} {compiled : Compilation} {e : Endpoint} {m : Method}
    (hcompiled : compile text unit = .ok compiled) (hok : compiled.diagnostics = [])
    (he : e ∈ compiled.built.schema.endpoints) (hm : m ∈ e.methods) :
    ∃ module ∈ compiled.modules, module.endpoint = e.name ∧ Offers module e m := by
  obtain ⟨hparsed, hbuilt, hschema, hmodules⟩ := modules_of_compile hcompiled hok
  obtain ⟨module, hmodule, hmade⟩ := exists_of_mem_forall₂_left hmodules he
  have hwf := hschema.endpoints e he
  rw [hbuilt] at he
  have hname : module.endpoint = (Schema.resolveEndpoint e).name :=
    Client.endpoint_of_ofEndpoint hmade
  refine ⟨module, hmodule, hname, hwf, ⟨unit, hmade⟩, hm,
    Schema.spells_of_build hparsed he hm, fun role s hs f hf => ?_⟩
  exact Schema.isIdent_of_build hparsed he hm (Schema.mem_items_of_findRole? hs) hf

/-- For every method of a source that compiles there is a module.  If it can be loaded and no
attribute is the name of a builder method, the functions of the method give its URI and its request
for all instances with an encoded form.  Only a whole number that has too many digits to be written
is refused. -/
theorem uri_and_request_of_method {text unit : String} {compiled : Compilation} {e : Endpoint}
    {m : Method} (hcompiled : compile text unit = .ok compiled) (hok : compiled.diagnostics = [])
    (he : e ∈ compiled.built.schema.endpoints) (hm : m ∈ e.methods) :
    ∃ module ∈ compiled.modules, module.endpoint = e.name ∧
      ((∀ c ∈ module.classes, BuilderApart c) → ∀ loaded, load module = .ok loaded →
        ∀ x, Supplied loaded m x →
          (UriWritable loaded m x → ∃ uri, IsUri loaded m x uri ∧
            call loaded (m.identifier ++ "_uri") (m.uriRoles.map x) = .ok (.value (.text uri)) ∧
            (HeadersWritable loaded m x → ∃ headers body,
              IsHeaders loaded m x headers ∧ IsBody loaded m x body ∧
              call loaded ("build_" ++ m.identifier ++ "_request") (m.requestRoles.map x) =
                .ok (.request { method := m.verb.name, uri, headers, body }))) ∧
          (¬ UriWritable loaded m x →
            call loaded (m.identifier ++ "_uri") (m.uriRoles.map x) = .error .numeralTooLong) ∧
          (¬ (UriWritable loaded m x ∧ HeadersWritable loaded m x) →
            call loaded ("build_" ++ m.identifier ++ "_request") (m.requestRoles.map x) =
              .error .numeralTooLong)) := by
  obtain ⟨module, hmodule, hname, h⟩ := offers_of_compile hcompiled hok he hm
  refine ⟨module, hmodule, hname, fun hapart loaded hload x hx => ?_⟩
  obtain rfl := settled_of_load hload
  obtain ⟨huri, hlong⟩ := h.callUri (fun _ _ _ _ c hc _ => hapart c hc) hx.uri
  obtain ⟨hrequest, hlongRequest⟩ := h.callRequest hapart hx
  have hcalls := h.call_uri (m.uriRoles.map x)
  refine ⟨fun hwritable => ?_, fun hnot => ?_, hlongRequest⟩
  · obtain ⟨uri, huri, hcall⟩ := huri hwritable
    rw [hcall] at hcalls
    exact ⟨uri, huri, hcalls, hrequest uri hcall⟩
  · rw [hlong hnot] at hcalls
    exact hcalls

/-! ## A path with a null character -/

def nullPathText : String := "[pub A:\x7bGET \"/\x00\"=>\x7b\x7d\x7d]"

def nullPathEndpoint : Endpoint where
  name := "A"
  isPublic := true
  methods := [⟨.get, ⟨"/\x00", [.literal "/\x00"]⟩, [], Schema.onFirstLine 8⟩]
  location := Schema.onFirstLine 0

theorem nullPath_built : (Tree.parse nullPathText "").errors = [] ∧
    (Schema.build (Tree.parse nullPathText "").source).errors = [] ∧
    (Schema.build (Tree.parse nullPathText "").source).schema.endpoints = [nullPathEndpoint] := by
  cbv

theorem nullPathEndpoint_wellFormed : nullPathEndpoint.WellFormed :=
  Schema.wellFormed_of_bare_method rfl rfl rfl

/-- The source compiles and its module has no class that could clash, but it cannot be loaded. -/
theorem null_path_unloadable : ∃ compiled module, compile nullPathText "" = .ok compiled ∧
    compiled.diagnostics = [] ∧ compiled.modules = [module] ∧ OneLine "" ∧
    (∀ c ∈ module.classes, BuilderApart c ∧ hidesClass c = false) ∧
    load module = .error .nullCharacter := by
  obtain ⟨compiled, module, hcompiled, hok, -, hmodules, hmade⟩ :=
    exists_sole_module nullPath_built nullPathEndpoint_wellFormed
  refine ⟨compiled, module, hcompiled, hok, hmodules, oneLine_empty, ?_, ?_⟩
  · obtain ⟨parts, hparts, h⟩ := bind_eq_ok_iff.mp hmade
    cases h
    cases hparts
    exact nofun
  · exact load_of_null_mem_path nullPathEndpoint_wellFormed hmade (List.mem_singleton_self _)
      (by decide)

/-! ## A field that fills the path -/

def sharedText : String := "[pub A:\x7bGET \"/\x7ba\x7d\"=>\x7bQuery\x7ba:i32,b:i32\x7d\x7d\x7d]"

def sharedField (name : String) (offset : Nat) : Field :=
  { name, type := .primitive "i32", attributes := [], location := Schema.onFirstLine offset }

def sharedQuery : Struct where
  name := "Query"
  role := some .query
  fields := [sharedField "a" 27, sharedField "b" 33]
  attributes := []
  location := Schema.onFirstLine 21

def sharedMethod : Method where
  verb := .get
  path := ⟨"/\x7ba\x7d", [.literal "/", .param "a"]⟩
  items := [.struct sharedQuery]
  location := Schema.onFirstLine 8

def sharedEndpoint : Endpoint where
  name := "A"
  isPublic := true
  methods := [sharedMethod]
  location := Schema.onFirstLine 0

theorem shared_built : (Tree.parse sharedText "").errors = [] ∧
    (Schema.build (Tree.parse sharedText "").source).errors = [] ∧
    (Schema.build (Tree.parse sharedText "").source).schema.endpoints = [sharedEndpoint] := by
  cbv

theorem shared_literals : Lexer.LiteralsNullFree sharedText "" := by
  have hlexemes : (Lexer.tokenize sharedText "").map (fun list =>
      (list.tokens.map (·.lexeme)).filterMap Lexeme.literal?) = .ok ["/\x7ba\x7d"] := by
    cbv
  exact Lexer.literalsNullFree_of_tokenize hlexemes (by decide)

/-- The query with the capability that its role gives it. -/
def sentQuery : Struct := { sharedQuery with capability := ⟨true, false, true⟩ }

theorem shared_capable :
    sharedEndpoint.withCapabilities =
      { sharedEndpoint with methods := [{ sharedMethod with items := [.struct sentQuery] }] } := by
  cbv

theorem sentQuery_wellFormed : sentQuery.WellFormed := by
  refine Schema.wellFormed_of_plain ⟨nofun, Nat.zero_le 1, nofun⟩ ?_ (by decide) (by decide) ?_
  · simp [sentQuery, sharedQuery, sharedField]
  · exact nodup_attributeNames_a_b

theorem sharedEndpoint_wellFormed : sharedEndpoint.WellFormed := by
  refine Schema.wellFormed_of_sole_item (j := .struct sentQuery) rfl rfl rfl
    (List.nodup_singleton _) ?_ ?_ sentQuery_wellFormed
  · intro p hp
    obtain rfl := List.mem_singleton.mp hp
    exact ⟨sharedField "a" 27, "i32", by decide, rfl⟩
  · rw [shared_capable]
    rfl

def fieldA : FieldDef := ⟨"a", .scalar .int, "a", .required⟩

def fieldB : FieldDef := ⟨"b", .scalar .int, "b", .required⟩

/-- The class of the query. -/
structure SharedClass (c : ClassDef) : Prop where
  name : c.name = sharedMethod.className "Query"
  base : c.base = .queryEncodable
  builder : c.builder = false
  fields : c.fields = [fieldA, fieldB]

theorem exists_sharedClass {module : Module}
    (h : Client.ofEndpoint "" (Schema.resolveEndpoint sharedEndpoint) = .ok module) :
    ∃ c, module.classes = [c] ∧ SharedClass c := by
  have hentries : (Schema.resolveEndpoint sharedEndpoint).entries =
      [⟨0, { sharedMethod with items := [.struct (Schema.resolveStruct sentQuery)] },
        .struct (Schema.resolveStruct sentQuery)⟩] := by
    rw [Schema.resolveEndpoint, shared_capable]
    rfl
  obtain ⟨c, className, hclasses, hclass⟩ := exists_class_of_entry h hentries
  refine ⟨c, hclasses, ?_⟩
  obtain ⟨base, fields, hbase, hfields, rfl⟩ := Client.structClass_eq_ok_iff.mp hclass
  have hdefs : (Schema.resolveStruct sentQuery).fields.mapM (Client.fieldDef className "Query") =
      .ok [⟨Name.attributeName "a", .scalar .int, "a", .required⟩,
        ⟨Name.attributeName "b", .scalar .int, "b", .required⟩] := rfl
  rw [attributeName_a, attributeName_b] at hdefs
  exact ⟨rfl, (Except.ok.inj hbase).symm, rfl, Except.ok.inj (hfields.symm.trans hdefs)⟩

theorem SharedClass.classLoads {c : ClassDef} (h : SharedClass c) : ClassLoads c := by
  refine classLoads_of_plain h.builder ?_ ?_
  · rw [hidesClass, h.fields]
    rfl
  · rw [h.fields]
    decide

/-- The source gives one module, which is loaded and has the class. -/
theorem shared_compiles : ∃ compiled module c, compile sharedText "" = .ok compiled ∧
    compiled.diagnostics = [] ∧ compiled.built.schema.endpoints = [sharedEndpoint] ∧
    compiled.modules = [module] ∧ load module = .ok (settled module) ∧ module.classes = [c] ∧
    SharedClass c ∧ (settled module).class? c.name = some c := by
  obtain ⟨compiled, module, hcompiled, hok, hendpoints, hmodules, hmade⟩ :=
    exists_sole_module shared_built sharedEndpoint_wellFormed
  obtain ⟨c, hclasses, hshared⟩ := exists_sharedClass hmade
  have hload := load_of_compile hcompiled hok shared_literals oneLine_empty
    (hmodules ▸ List.mem_singleton_self module)
    (hclasses ▸ List.forall_mem_singleton.mpr hshared.classLoads)
  exact ⟨compiled, module, c, hcompiled, hok, hendpoints, hmodules, hload, hclasses, hshared,
    class?_settled_sole hclasses hshared.builder⟩

section

variable {module : Module} {c : ClassDef}

def sharedValue (c : ClassDef) : Value := .model c.name [("a", .int 5), ("b", .int 7)]

theorem construct_shared (hshared : SharedClass c) (hc : module.class? c.name = some c) :
    construct module c.name [("a", .int 5), ("b", .int 7)] = .ok (sharedValue c) := by
  rw [construct, hc]
  refine checked_eq_ok_iff.mpr ?_
  have hint : ∀ s n i, checkValue s n (.scalar .int) (.int i) = .ok (.int i) := by
    intro s n i
    rw [checkValue_scalar_eq_ok_iff]
    rfl
  have hgiven : ∀ s n, checkFields s n c.fields [("a", .int 5), ("b", .int 7)] =
      .ok [⟨"a", some (.int 5), .null⟩, ⟨"b", some (.int 7), .null⟩] := by
    intro s n
    rw [hshared.fields, checkFields_eq_ok_iff]
    refine .cons ?_ (.cons ?_ .nil)
    · rw [checkField_of_entry (show entryFor? _ _ = some ("a", .int 5) from rfl), fieldA, hint]
      rfl
    · rw [checkField_of_entry (show entryFor? _ _ = some ("b", .int 7) from rfl), fieldB, hint]
      rfl
  show checkClass _ _ c _ = _
  rw [checkClass_object, hgiven]
  show assemble c _ = _
  rw [assemble, if_neg (by rw [hshared.base]; decide)]
  rfl

theorem encodeInstance_model {attrs : List (String × Value)} {entries : List (String × Json)}
    (hc : module.class? c.name = some c) (hcan : c.base.canEncode = true)
    (h : encodeAttrs (.ofModule module) (.start (Reader.ofModule module) c.name) c attrs =
      .ok entries) :
    encodeInstance module (.model c.name attrs) =
      .ok (.object (entries.filter fun e => !(ClassDef.omittedKeys c attrs).contains e.1)) := by
  have hencode : encode module (.model c.name attrs) =
      .ok (.object (entries.filter fun e => !(ClassDef.omittedKeys c attrs).contains e.1)) := by
    have hclass : (Writing.ofModule module).module.class? c.name = some c := hc
    have hinside : Shape.inside? (Writing.ofModule module).readers ⟨default, 0⟩ c .free =
        some (.start (Reader.ofModule module) c.name) := inside?_start _ c
    rw [encode, encodeIn]
    simp only [Shape.misfit?]
    rw [hclass]
    simp only [hinside]
    exact bind_eq_ok_iff.mpr ⟨entries, h, rfl⟩
  rw [encodeInstance, classOf?, hc]
  show (if c.base.canEncode then encoded module _ else _) = _
  rw [if_pos hcan, encoded, hencode]

theorem argument_shared (hshared : SharedClass c) (hc : module.class? c.name = some c) :
    Argument module sharedMethod sharedQuery (sharedValue c) where
  obtained := by
    refine .constructed (fun e he => ?_) (construct_shared hshared hc)
    simp only [List.mem_cons, List.not_mem_nil, or_false] at he
    rcases he with rfl | rfl
    · exact .scalar trivial trivial
    · exact .scalar trivial trivial
  ofClass := ⟨c, hc, hshared.name⟩
  encodes := by
    have ha : c.field? "a" = some fieldA := by rw [ClassDef.field?, hshared.fields]; rfl
    have hb : c.field? "b" = some fieldB := by rw [ClassDef.field?, hshared.fields]; rfl
    have hint : ∀ w n i, encodeIn w n .whole (.int i) = .ok (.int i) := by
      intro w n i
      rw [encodeIn]
      rfl
    have hattrs : ∀ w n, encodeAttrs w n c [("a", .int 5), ("b", .int 7)] =
        .ok [("a", .int 5), ("b", .int 7)] := by
      intro w n
      rw [encodeAttrs, ha, encodeAttrs, hb, encodeAttrs]
      show (do let j ← encodeIn w n .whole (.int 5); _) = _
      rw [hint]
      show (do let js ← (do let j ← encodeIn w n .whole (.int 7); _); _) = _
      rw [hint]
      rfl
    exact ⟨_, encodeInstance_model hc (by rw [hshared.base]; rfl) (hattrs _ _)⟩

theorem uriWritable_shared (hshared : SharedClass c) (hc : module.class? c.name = some c) :
    UriWritable module sharedMethod fun _ => sharedValue c where
  path := by
    intro p hp v hv
    obtain rfl := List.mem_singleton.mp hp
    obtain ⟨role, -, -, hheld⟩ := hv
    rw [attributeName_a] at hheld
    obtain rfl : Value.int 5 = v := Option.some.inj hheld
    decide
  query := by
    intro s hs f hf hnot j hj
    cases hs
    obtain rfl : f = sharedField "b" 33 := by
      rcases List.mem_cons.mp hf with rfl | hf
      · exact absurd (List.mem_singleton_self _) hnot
      · exact List.mem_singleton.mp hf
    have hb : c.field? "b" = some fieldB := by rw [ClassDef.field?, hshared.fields]; rfl
    obtain ⟨d, g, held, hd, hg, hheld, hj⟩ := hj
    cases hc.symm.trans hd
    rw [show (sharedField "b" 33).name = "b" from rfl, attributeName_b] at hg hheld
    cases hb.symm.trans hg
    obtain rfl : Value.int 7 = held := Option.some.inj hheld
    rw [encodeIn] at hj
    cases hj
    show isWritableJson (.int 7) = true
    decide

theorem headersWritable_shared : HeadersWritable module sharedMethod fun _ => sharedValue c :=
  nofun

end

/-- One field of the query fills the path, the other one is sent behind it. -/
theorem shared_query_called : ∃ compiled module loaded x uri headers body,
    compile sharedText "" = .ok compiled ∧ module ∈ compiled.modules ∧
    load module = .ok loaded ∧ Supplied loaded sharedMethod x ∧
    IsUri loaded sharedMethod x uri ∧ IsHeaders loaded sharedMethod x headers ∧
    IsBody loaded sharedMethod x body ∧
    call loaded (sharedMethod.identifier ++ "_uri") (sharedMethod.uriRoles.map x) =
      .ok (.value (.text uri)) ∧
    call loaded ("build_" ++ sharedMethod.identifier ++ "_request")
      (sharedMethod.requestRoles.map x) = .ok (.request ⟨"GET", uri, headers, body⟩) := by
  obtain ⟨compiled, module, c, hcompiled, hok, hendpoints, hmodules, hload, hclasses, hshared,
    hclass⟩ := shared_compiles
  have hapart : ∀ d ∈ module.classes, BuilderApart d :=
    hclasses ▸ List.forall_mem_singleton.mpr (builderApart_of_plain hshared.builder)
  obtain ⟨found, hmodule, -, hcalls⟩ := uri_and_request_of_method hcompiled hok
    (hendpoints ▸ List.mem_singleton_self sharedEndpoint) (List.mem_singleton_self sharedMethod)
  rw [hmodules, List.mem_singleton] at hmodule
  subst hmodule
  have hx : Supplied (settled found) sharedMethod fun _ => sharedValue c := by
    intro role s hrole hs
    cases role with
    | query =>
      cases hs
      exact argument_shared hshared hclass
    | header => cases hs
    | request => cases hs
    | response => cases hs
    | reqRes => cases hs
  obtain ⟨uri, huri, hcallUri, hrequest⟩ :=
    (hcalls hapart _ hload _ hx).1 (uriWritable_shared hshared hclass)
  obtain ⟨headers, body, hheaders, hbody, hcallRequest⟩ := hrequest headersWritable_shared
  exact ⟨compiled, found, settled found, _, uri, headers, body, hcompiled,
    hmodules ▸ List.mem_singleton_self found, hload, hx, huri, hheaders, hbody, hcallUri,
    hcallRequest⟩

end Wire
end EndpointDsl
