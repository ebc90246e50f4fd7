import EndpointDsl.Proofs.Client.Roles

/-!
What a generated module declares under which name.

The class of every item is found under the item's name in its method, and every function under its
own: the four kinds of names end differently, and the methods of an endpoint have different
identifiers.  What the functions for URIs and requests are made of is read off the method as it
stands in the source.
-/

namespace EndpointDsl
namespace Client

open Schema (Endpoint Entry Item Method Struct Field)

/-- What is the only one under its key is found there. -/
theorem find?_of_unique {α : Type} {key : α → String} {xs : List α} {x : α} (hx : x ∈ xs)
    (hunique : ∀ y ∈ xs, key y = key x → y = x) : xs.find? (key · == key x) = some x := by
  cases hfound : xs.find? (key · == key x) with
  | none => exact absurd (beq_self_eq_true (key x)) (List.find?_eq_none.mp hfound x hx)
  | some y =>
    have hkey := List.find?_some hfound
    rw [hunique y (List.mem_of_find?_eq_some hfound) (beq_iff_eq.mp hkey)]

/-! ## Classes -/

theorem name_of_itemClass {className : String → Gen String} {m : Method} {i : Item} {c : ClassDef}
    (h : itemClass className m i = .ok c) : c.name = m.className i.name := by
  cases i with
  | struct s =>
    obtain ⟨base, fields, -, -, rfl⟩ := structClass_eq_ok_iff.mp h
    rfl
  | enum d =>
    obtain ⟨fields, -, -, -, rfl⟩ := enumClass_eq_ok_iff.mp h
    rfl

theorem classNames_entriesFrom (index : Nat) (methods : List Method) :
    (Schema.entriesFrom index methods).map (fun x => x.method.className x.item.name) =
      methods.flatMap (·.classNames) := by
  induction methods generalizing index with
  | nil => rfl
  | cons m rest ih =>
    rw [Schema.entriesFrom, List.map_append, ih, List.flatMap_cons, Schema.methodEntries,
      List.map_map]
    rfl

theorem classNames_resolves {m m' : Method} (h : m.Resolves m') : m.classNames = m'.classNames := by
  obtain ⟨items, hitems, rfl⟩ := h
  exact map_eq_of_forall₂ hitems fun i i' hi => by
    rw [hi.name_eq]
    rfl

theorem exists_entry_of_mem {index : Nat} {methods : List Method} {m : Method} {i : Item}
    (hm : m ∈ methods) (hi : i ∈ m.items) :
    ∃ x ∈ Schema.entriesFrom index methods, x.method = m ∧ x.item = i := by
  induction methods generalizing index with
  | nil => cases hm
  | cons n rest ih =>
    rcases List.mem_cons.mp hm with rfl | hm
    · exact ⟨_, List.mem_append_left _ (List.mem_map.mpr ⟨i, hi, rfl⟩), rfl, rfl⟩
    · obtain ⟨x, hx, hxm⟩ := @ih (index + 1) hm
      exact ⟨x, List.mem_append_right _ hx, hxm⟩

theorem classNames_ofEndpoint {unit : String} {e : Endpoint} {module : Module}
    (h : ofEndpoint unit e = .ok module) :
    module.classes.map (·.name) = e.methods.flatMap (·.classNames) := by
  obtain ⟨parts, hparts, h⟩ := bind_eq_ok_iff.mp h
  cases h
  show parts.1.map (·.name) = _
  rw [← map_eq_of_forall₂ (classes_partsFrom hparts) fun x c hc => (name_of_itemClass hc).symm,
    classNames_entriesFrom]

/-- The classes of a module are named after the items of the methods, in order. -/
theorem classNames_of_ofEndpoint {unit : String} {e : Endpoint} {module : Module}
    (hwf : e.WellFormed) (h : ofEndpoint unit (Schema.resolveEndpoint e) = .ok module) :
    module.classes.map (·.name) = e.methods.flatMap (·.classNames) := by
  have hsame : (Schema.resolveEndpoint e).methods.map (·.classNames) =
      e.methods.map (·.classNames) :=
    (map_eq_of_forall₂ (Schema.resolves_resolveEndpoint hwf)
      fun _ _ hm => classNames_resolves hm).symm
  rw [classNames_ofEndpoint h, List.flatMap_def, hsame, ← List.flatMap_def]

/-- The class of every item is found under its name. -/
theorem exists_class? {unit : String} {e : Endpoint} {module : Module} {m : Method} {i : Item}
    (hwf : e.WellFormed) (h : ofEndpoint unit (Schema.resolveEndpoint e) = .ok module)
    (hm : m ∈ (Schema.resolveEndpoint e).methods) (hi : i ∈ m.items) :
    ∃ className c, module.class? (m.className i.name) = some c ∧
      itemClass className m i = .ok c := by
  have hnames : (module.classes.map (·.name)).Nodup := classNames_of_ofEndpoint hwf h ▸ hwf.classes
  obtain ⟨parts, hparts, h⟩ := bind_eq_ok_iff.mp h
  cases h
  obtain ⟨x, hx, rfl, rfl⟩ := @exists_entry_of_mem 0 _ _ _ hm hi
  obtain ⟨c, hc, hclass⟩ := exists_of_mem_forall₂_left (classes_partsFrom hparts) hx
  refine ⟨_, c, ?_, hclass⟩
  show parts.1.find? (·.name == x.method.className x.item.name) = some c
  rw [← name_of_itemClass hclass]
  exact find?_of_unique hc fun d hd hname => List.inj_on_of_nodup_map hnames hd hc hname

/-! ## Functions -/

/-- What a function is for. -/
inductive Purpose
  | uri
  | request
  | response
  | headers
  deriving DecidableEq

def Body.purpose : Body → Purpose
  | .uri _ _ _ _ => .uri
  | .request _ _ _ _ _ _ => .request
  | .response _ => .response
  | .headers _ => .headers

/-- The name of a function for a method of the given identifier. -/
def Purpose.functionName (identifier : String) : Purpose → String
  | uri => identifier ++ "_uri"
  | request => "build_" ++ identifier ++ "_request"
  | response => "parse_" ++ identifier ++ "_response"
  | headers => "parse_" ++ identifier ++ "_headers"

def Purpose.lastChar : Purpose → Char
  | uri => 'i'
  | request => 't'
  | response => 'e'
  | headers => 's'

theorem getLast?_functionName (identifier : String) (p : Purpose) :
    (p.functionName identifier).toList.getLast? = some p.lastChar := by
  cases p <;>
  · rw [Purpose.functionName, String.toList_append, List.getLast?_append]
    rfl

theorem functionName_inj {p q : Purpose} {identifier other : String}
    (h : p.functionName identifier = q.functionName other) : p = q ∧ identifier = other := by
  have hlast : p.lastChar = q.lastChar := by
    have hlasts := congrArg (fun s : String => s.toList.getLast?) h
    simp only [getLast?_functionName] at hlasts
    exact Option.some.inj hlasts
  have hpurpose : p = q := by
    revert hlast
    cases p <;> cases q <;> decide
  subst hpurpose
  refine ⟨rfl, String.toList_inj.mp ?_⟩
  have hchars := congrArg String.toList h
  cases p <;> simpa [Purpose.functionName] using hchars

theorem name_of_mem_methodFunctions {m : Method} {functions : List FunctionDef} {f : FunctionDef}
    (h : methodFunctions m = .ok functions) (hf : f ∈ functions) :
    f.name = f.body.purpose.functionName m.identifier := by
  obtain ⟨values, -, hmade⟩ := functionOf_of_mem h hf
  cases hmade <;> rfl

/-- A method has at most one function for each purpose. -/
theorem nodup_purposes {m : Method} {functions : List FunctionDef}
    (h : methodFunctions m = .ok functions) : (functions.map (·.body.purpose)).Nodup := by
  obtain ⟨values, -, h⟩ := bind_eq_ok_iff.mp h
  cases h
  have hresponse : (responseFunction m).map (·.body.purpose) = [] ∨
      (responseFunction m).map (·.body.purpose) = [.response] := by
    unfold responseFunction
    split
    · exact Or.inr rfl
    · exact Or.inl rfl
  have hheaders : (headersFunction m).map (·.body.purpose) = [] ∨
      (headersFunction m).map (·.body.purpose) = [.headers] := by
    unfold headersFunction
    split
    · exact Or.inr rfl
    · exact Or.inl rfl
  rw [List.map_append]
  show (Purpose.uri :: .request :: (responseFunction m).map (·.body.purpose) ++ _).Nodup
  rcases hresponse with hresponse | hresponse <;> rcases hheaders with hheaders | hheaders <;>
  · rw [hresponse, hheaders]
    decide

/-- Functions of one name are one function. -/
theorem eq_of_name_eq {endpoint : String} {entries : List Entry} {index : Nat}
    {methods : List Method} {parts : List ClassDef × List FunctionDef} {f g : FunctionDef}
    (hidentifiers : (methods.map (·.identifier)).Nodup)
    (h : partsFrom endpoint entries index methods = .ok parts) (hf : f ∈ parts.2)
    (hg : g ∈ parts.2) (hname : f.name = g.name) : f = g := by
  obtain ⟨m, hm, functions, hfunctions, hf⟩ := exists_of_mem_functions h hf
  obtain ⟨n, hn, others, hothers, hg⟩ := exists_of_mem_functions h hg
  rw [name_of_mem_methodFunctions hfunctions hf, name_of_mem_methodFunctions hothers hg] at hname
  obtain ⟨hpurpose, hidentifier⟩ := functionName_inj hname
  obtain rfl : m = n := List.inj_on_of_nodup_map hidentifiers hm hn hidentifier
  cases hfunctions.symm.trans hothers
  exact List.inj_on_of_nodup_map (nodup_purposes hfunctions) hf hg hpurpose

theorem mem_functions_partsFrom {endpoint : String} {entries : List Entry} {index : Nat}
    {methods : List Method} {parts : List ClassDef × List FunctionDef} {m : Method}
    {functions : List FunctionDef} {f : FunctionDef}
    (h : partsFrom endpoint entries index methods = .ok parts) (hm : m ∈ methods)
    (hfunctions : methodFunctions m = .ok functions) (hf : f ∈ functions) : f ∈ parts.2 := by
  induction methods generalizing index parts with
  | nil => cases hm
  | cons n rest ih =>
    obtain ⟨own, others, hown, hothers, rfl⟩ := partsFrom_cons_eq_ok h
    rcases List.mem_cons.mp hm with rfl | hm
    · cases hfunctions.symm.trans (methodParts_eq_ok_iff.mp hown).2
      exact List.mem_append_left _ hf
    · exact List.mem_append_right _ (ih hothers hm)

/-- Every function of a method is found in the module under its name. -/
theorem function?_of_mem {unit : String} {e : Endpoint} {module : Module} {m : Method}
    {functions : List FunctionDef} {f : FunctionDef}
    (hidentifiers : (e.methods.map (·.identifier)).Nodup) (h : ofEndpoint unit e = .ok module)
    (hm : m ∈ e.methods) (hfunctions : methodFunctions m = .ok functions) (hf : f ∈ functions) :
    module.function? f.name = some f := by
  obtain ⟨parts, hparts, h⟩ := bind_eq_ok_iff.mp h
  cases h
  have hmem := mem_functions_partsFrom hparts hm hfunctions hf
  exact find?_of_unique hmem fun g hg hname => eq_of_name_eq hidentifiers hparts hg hmem hname

/-! ## URIs and requests -/

/-- The wire names of the fields of a structure that fill path parameters. -/
def pathKeys (m : Method) (s : Struct) : List String :=
  (s.fields.filter fun f => m.path.parameters.contains f.name).map s.wire

section

variable {e : Endpoint} {m m' : Method}

theorem paramsFor_resolves (h : m.Resolves m') (roles : List Role) :
    paramsFor m' roles = paramsFor m roles := by
  have hclass : m'.className = m.className := by
    obtain ⟨items, -, rfl⟩ := h
    rfl
  refine List.filterMap_congr fun role _ => ?_
  rcases Schema.findRole?_resolves h (some role) with ⟨hs, hs'⟩ | ⟨s, s', hs, hs', hresolves⟩
  · rw [hs, hs', Option.map_none, Option.map_none]
  · rw [hs, hs', Option.map_some, Option.map_some, hresolves.name, hclass]

theorem any_name_eq_contains (s : Struct) (p : String) :
    s.fields.any (·.name == p) = (s.fields.map (·.name)).contains p := by
  rw [Bool.eq_iff_iff, List.any_eq_true, List.contains_iff_mem, List.mem_map]
  simp only [beq_iff_eq]

theorem coveringRole?_resolves (h : m.Resolves m') (p : String) :
    coveringRole? m' p = coveringRole? m p := by
  unfold coveringRole?
  congr 1
  funext role
  rcases Schema.findRole?_resolves h (some role) with ⟨hs, hs'⟩ | ⟨s, s', hs, hs', hresolves⟩
  · rw [hs, hs']
  · rw [hs, hs']
    simp only [any_name_eq_contains, hresolves.fieldNames]

theorem pathValue_resolves (h : m.Resolves m') (p : String) : pathValue m' p = pathValue m p := by
  unfold pathValue
  rw [coveringRole?_resolves h]
  obtain ⟨items, -, rfl⟩ := h
  rfl

theorem excludedKeys_resolves (h : m.Resolves m') {s s' : Struct} (hs : s.Resolves s') :
    excludedKeys m' s' = pathKeys m s := by
  obtain ⟨items, -, rfl⟩ := h
  have hkept := List.rel_filter (p := fun f : Field => m.path.parameters.contains f.name)
    (q := fun f : Field => m.path.parameters.contains f.name)
    (fun f f' hf => by simp only [hf.name]) hs.fields
  exact (map_eq_of_forall₂ hkept fun f f' hf => by rw [hf.wire]; rfl).symm

theorem covers_of_coveringRole? {p : String} {role : Role} (h : coveringRole? m p = some role) :
    m.Covers role p := by
  refine ⟨List.mem_of_find?_eq_some h, ?_⟩
  have hfound := List.find?_some h
  split at hfound
  · next s hs =>
    rw [any_name_eq_contains, List.contains_iff_mem] at hfound
    exact ⟨s, hs, hfound⟩
  · cases hfound

/-- The value of a parameter is taken from the attribute of the field that covers it. -/
theorem pathValue_eq_ok {p : String} {v : PathValue} (h : pathValue m p = .ok v) :
    v.parameter = p ∧ v.attr = Name.attributeName p ∧ m.Covers v.role p := by
  unfold pathValue at h
  split at h
  · next role hrole =>
    cases h
    exact ⟨rfl, rfl, covers_of_coveringRole? hrole⟩
  · cases h

theorem firstOccurrences_eq_self {seen names : List String} (hnodup : names.Nodup)
    (hseen : ∀ name ∈ names, name ∉ seen) :
    PathTemplate.firstOccurrences seen names = names := by
  induction names generalizing seen with
  | nil => rfl
  | cons name rest ih =>
    obtain ⟨hname, hnodup⟩ := List.nodup_cons.mp hnodup
    obtain ⟨hfresh, hseen⟩ := List.forall_mem_cons.mp hseen
    rw [PathTemplate.firstOccurrences, if_neg (by simpa using hfresh), ih hnodup]
    intro other hother hmem
    rcases List.mem_cons.mp hmem with rfl | hmem
    · exact hname hother
    · exact hseen other hother hmem

/-- The roles that fill parameters are those whose structures have fields of their names. -/
theorem uriRoles_eq (hwf : m.WellFormed e) {values : List PathValue}
    (hvalues : m.path.parameters.mapM (pathValue m) = .ok values) :
    (Schema.pathRoles.filter fun role =>
      (role == .query && m.hasRole .query) || values.any (·.role == role)) = m.uriRoles := by
  refine List.filter_congr fun role hrole => ?_
  have hfilled : values.any (·.role == role) = true ↔ ∃ p ∈ m.path.parameters, m.Covers role p := by
    have hall := mapM_eq_ok_iff.mp hvalues
    rw [List.any_eq_true]
    constructor
    · rintro ⟨v, hv, hvrole⟩
      obtain ⟨p, hp, hpv⟩ := exists_of_mem_forall₂ hall hv
      exact ⟨p, hp, beq_iff_eq.mp hvrole ▸ (pathValue_eq_ok hpv).2.2⟩
    · rintro ⟨p, hp, hcovers⟩
      obtain ⟨v, hv, hpv⟩ := exists_of_mem_forall₂_left hall hp
      obtain ⟨only, -, -, -, -, -, -, -, -, honly⟩ := Schema.exists_covers hwf hp
      refine ⟨v, hv, beq_iff_eq.mpr ?_⟩
      rw [honly _ hcovers, honly _ (pathValue_eq_ok hpv).2.2]
  rw [Bool.eq_iff_iff, Bool.or_eq_true, hfilled]
  unfold Schema.Method.Covers Schema.Method.hasRole
  cases hs : m.findRole? (some role) with
  | none =>
    simp only [Bool.and_eq_true, beq_iff_eq, Bool.false_eq_true, iff_false, not_or]
    refine ⟨?_, ?_⟩
    · rintro ⟨rfl, hsome⟩
      rw [hs] at hsome
      cases hsome
    · rintro ⟨p, -, -, s, hnone, -⟩
      cases hnone
  | some s =>
    simp only [Bool.and_eq_true, Bool.or_eq_true, beq_iff_eq, List.any_eq_true,
      List.contains_iff_mem]
    constructor
    · rintro (⟨rfl, -⟩ | ⟨p, hp, -, t, ht, hmem⟩)
      · exact Or.inl rfl
      · cases ht
        obtain ⟨f, hf, rfl⟩ := List.mem_map.mp hmem
        exact Or.inr ⟨f, hf, hp⟩
    · rintro (rfl | ⟨f, hf, hp⟩)
      · exact Or.inl ⟨rfl, by rw [hs]; rfl⟩
      · exact Or.inr ⟨f.name, hp, hrole, s, rfl, List.mem_map.mpr ⟨f, hf, rfl⟩⟩

/-- The functions for the URI and the request of a method. -/
theorem exists_functions (hwf : m.WellFormed e) (h : m.Resolves m') {functions : List FunctionDef}
    (hfunctions : methodFunctions m' = .ok functions) :
    ∃ values uriDoc requestDoc, m.path.parameters.mapM (pathValue m) = .ok values ∧
      ⟨Purpose.uri.functionName m.identifier, uriDoc,
        .uri (paramsFor m m.uriRoles) m.path.raw values
          ((m.findRole? (some .query)).map (pathKeys m))⟩ ∈ functions ∧
      ⟨Purpose.request.functionName m.identifier, requestDoc,
        .request (paramsFor m [.query, .request, .reqRes, .header]) m.verb
          (Purpose.uri.functionName m.identifier) m.uriRoles (m.hasRole .header) m.bodyRole?⟩ ∈
        functions := by
  obtain ⟨values, hvalues, hall⟩ := bind_eq_ok_iff.mp hfunctions
  cases hall
  have hpath : m'.path = m.path ∧ m'.verb = m.verb ∧ m'.identifier = m.identifier := by
    obtain ⟨items, -, rfl⟩ := h
    exact ⟨rfl, rfl, rfl⟩
  obtain ⟨hpath, hverb, hidentifier⟩ := hpath
  have hdistinct : m'.path.distinctParameters = m.path.parameters := by
    rw [hpath]
    exact firstOccurrences_eq_self hwf.parameters fun _ _ => List.not_mem_nil
  rw [hdistinct, funext (pathValue_resolves h)] at hvalues
  have hquery : (m'.findRole? (some .query)).map (excludedKeys m') =
      (m.findRole? (some .query)).map (pathKeys m) := by
    rcases Schema.findRole?_resolves h (some .query) with ⟨hs, hs'⟩ | ⟨s, s', hs, hs', hresolves⟩
    · rw [hs, hs']
      rfl
    · rw [hs, hs', Option.map_some, Option.map_some, excludedKeys_resolves h hresolves]
  have hhas : ∀ role, (m'.findRole? (some role)).isSome = m.hasRole role :=
    congrFun (Schema.hasRole_resolves h)
  have hroles := uriRoles_eq hwf hvalues
  refine ⟨values, Docs.uri m' (m.hasRole .query), Docs.request m', hvalues,
    List.mem_append_left _ (List.mem_cons.mpr (Or.inl ?_)),
    List.mem_append_left _ (List.mem_cons_of_mem _ (List.mem_cons.mpr (Or.inl ?_)))⟩
  · simp only [hhas, hroles, hidentifier, hpath, hquery, paramsFor_resolves h]
    rfl
  · simp only [hhas, hroles, hidentifier, hverb, paramsFor_resolves h]
    rfl

theorem identifiers_resolveEndpoint (hwf : e.WellFormed) :
    (Schema.resolveEndpoint e).methods.map (·.identifier) = e.methods.map (·.identifier) := by
  refine (map_eq_of_forall₂ (Schema.resolves_resolveEndpoint hwf) fun n n' hn => ?_).symm
  obtain ⟨items, -, rfl⟩ := hn
  rfl

/-- The functions for the URI and the request of a method are found in the module. -/
theorem exists_function? {unit : String} {module : Module} (hwf : e.WellFormed)
    (h : ofEndpoint unit (Schema.resolveEndpoint e) = .ok module) (hm : m ∈ e.methods) :
    ∃ values uriDoc requestDoc, m.path.parameters.mapM (pathValue m) = .ok values ∧
      module.function? (Purpose.uri.functionName m.identifier) =
        some ⟨Purpose.uri.functionName m.identifier, uriDoc,
          .uri (paramsFor m m.uriRoles) m.path.raw values
            ((m.findRole? (some .query)).map (pathKeys m))⟩ ∧
      module.function? (Purpose.request.functionName m.identifier) =
        some ⟨Purpose.request.functionName m.identifier, requestDoc,
          .request (paramsFor m [.query, .request, .reqRes, .header]) m.verb
            (Purpose.uri.functionName m.identifier) m.uriRoles (m.hasRole .header)
            m.bodyRole?⟩ := by
  obtain ⟨m', hm', hresolves⟩ :=
    exists_of_mem_forall₂_left (Schema.resolves_resolveEndpoint hwf) hm
  have hmethod := hwf.methods m hm
  have hidentifiers : ((Schema.resolveEndpoint e).methods.map (·.identifier)).Nodup :=
    identifiers_resolveEndpoint hwf ▸ hwf.identifiers
  obtain ⟨functions, hfunctions⟩ := exists_methodFunctions hmethod hresolves
  obtain ⟨values, uriDoc, requestDoc, hvalues, huri, hrequest⟩ :=
    exists_functions hmethod hresolves hfunctions
  have hfoundUri := function?_of_mem hidentifiers h hm' hfunctions huri
  have hfoundRequest := function?_of_mem hidentifiers h hm' hfunctions hrequest
  exact ⟨values, uriDoc, requestDoc, hvalues, hfoundUri, hfoundRequest⟩

end

end Client
end EndpointDsl
