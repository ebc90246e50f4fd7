import EndpointDsl.Proofs.Client.Declarations
import EndpointDsl.Proofs.Client.Texts
import EndpointDsl.Proofs.Compilation
import EndpointDsl.Proofs.Wire.Settled

/-!
Which modules can be loaded.

The path of a method stands in the documentation of its functions, where nothing but quotes and
backslashes is escaped.  So every character of the path that ends no line is one of the module's
text, and a null character there keeps the module from being loaded.  Where the schema has no null
character and the unit is named on one line, only a class that cannot be made does.
-/

namespace EndpointDsl

theorem mem_intercalate {separator s : String} {c : Char} {texts : List String} (hs : s ∈ texts)
    (hc : c ∈ s.toList) : c ∈ (String.intercalate separator texts).toList := by
  induction texts with
  | nil => cases hs
  | cons first rest ih =>
    cases rest with
    | nil =>
      obtain rfl := List.mem_singleton.mp hs
      rwa [String.intercalate_singleton]
    | cons second others =>
      rw [String.intercalate_cons_cons, String.toList_append, String.toList_append,
        List.mem_append, List.mem_append]
      rcases List.mem_cons.mp hs with rfl | hs
      · exact Or.inl (Or.inl hc)
      · exact Or.inr (ih hs)

/-! ## Documentation -/

namespace Client

open Schema (Endpoint Method)

namespace Docs

variable {c : Char}

theorem mem_padded {indent : Nat} {line : String} (h : c ∈ line.toList) :
    c ∈ (padded indent line).toList := by
  have hne : ¬ line.isEmpty = true := by
    intro hempty
    rw [String.isEmpty_iff] at hempty
    rw [hempty] at h
    cases h
  rw [padded, if_neg hne, String.toList_append]
  exact List.mem_append_right _ h

/-- A documentation string holds all of its text but the ends of lines. -/
theorem mem_literal {indent : Nat} {text : String} (hc : Text.isLineEnd c = false)
    (h : c ∈ text.toList) : c ∈ (literal indent text).toList := by
  have hne : (c == '\n') = false := by
    refine beq_false_of_ne ?_
    rintro rfl
    cases hc
  have hline : ∃ line ∈ Text.lines (Text.trimNewlines text), c ∈ line.toList := by
    have htrimmed : c ∈ Text.trimChars (· == '\n') text.toList := Text.mem_trimChars hne h
    obtain ⟨l, hl, hmem⟩ := @Text.mem_linesFrom c [] _ hc (Or.inr htrimmed)
    refine ⟨String.ofList l, List.mem_map.mpr ⟨l, ?_, rfl⟩, ?_⟩
    · rw [Text.trimNewlines, String.toList_ofList]
      exact hl
    · rwa [String.toList_ofList]
  obtain ⟨line, hline, hmem⟩ := hline
  unfold literal literal?
  split
  · next hempty =>
    rw [hempty] at hline
    cases hline
  · next only honly =>
    rw [honly, List.mem_singleton] at hline
    subst hline
    simp [hmem]
  · next first rest _ hlines =>
    rw [hlines] at hline
    have hjoined : c ∈ (String.intercalate "\n" (first :: rest.map (padded indent))).toList := by
      rcases List.mem_cons.mp hline with rfl | hrest
      · exact mem_intercalate List.mem_cons_self hmem
      · exact mem_intercalate (List.mem_cons_of_mem _ (List.mem_map.mpr ⟨line, hrest, rfl⟩))
          (mem_padded hmem)
    rw [Option.getD_some]
    simp only [String.toList_append, List.mem_append]
    exact Or.inl (Or.inl (Or.inl (Or.inr hjoined)))

theorem mem_escape {s : String} (h : c ∈ s.toList) : c ∈ (escape s).toList := by
  rw [escape, String.toList_ofList]
  refine List.mem_flatMap.mpr ⟨c, h, ?_⟩
  unfold escapeChar
  split <;> simp

theorem mem_request {m : Method} (h : c ∈ m.path.raw.toList) : c ∈ (request m).toList := by
  have hroute : c ∈ (route m).toList := by
    simp only [route, code, String.toList_append, List.mem_append]
    exact Or.inl (Or.inr (Or.inr (mem_escape h)))
  show c ∈ ("Prepare a " ++ route m ++ " request.").toList
  simp only [String.toList_append, List.mem_append]
  exact Or.inl (Or.inr hroute)

end Docs

/-! ## Modules -/

theorem mem_block {lines : List String} {line : String} {c : Char} (hline : line ∈ lines)
    (hc : c ∈ line.toList) : c ∈ (Layout.block lines).toList := by
  rw [Layout.block, String.toList_join]
  refine List.mem_flatMap.mpr ⟨_, List.mem_map.mpr ⟨line, hline, rfl⟩, ?_⟩
  rw [String.toList_append]
  exact List.mem_append_left _ hc

/-- The text of a module holds the documentation of its functions. -/
theorem mem_moduleText {module : Module} {f : FunctionDef} {c : Char} (hf : f ∈ module.functions)
    (hc : Text.isLineEnd c = false) (h : c ∈ f.doc.toList) :
    c ∈ (Layout.moduleText module).toList := by
  have hline : "    " ++ Docs.literal 4 f.doc ∈ Layout.functionLines f := by
    simp [Layout.functionLines]
  refine mem_block (List.mem_append_left _ (List.mem_append_right _
    (List.mem_flatMap.mpr ⟨f, hf, hline⟩))) ?_
  rw [String.toList_append]
  exact List.mem_append_right _ (Docs.mem_literal hc h)

theorem exists_request_of_mem_methods {source : String} {e : Endpoint} {module : Module}
    {m : Method} (h : ofEndpoint source e = .ok module) (hm : m ∈ e.methods)
    {functions : List FunctionDef} (hfunctions : methodFunctions m = .ok functions) :
    ∃ f ∈ module.functions, f.doc = Docs.request m := by
  obtain ⟨parts, hparts, h⟩ := bind_eq_ok_iff.mp h
  cases h
  obtain ⟨values, -, hall⟩ := bind_eq_ok_iff.mp hfunctions
  cases hall
  exact ⟨_, mem_functions_partsFrom hparts hm hfunctions
    (List.mem_append_left _ (List.mem_cons_of_mem _ List.mem_cons_self)), rfl⟩

end Client

namespace Wire

open Client (ClassDef Module ofEndpoint)
open Schema (Endpoint Method)

/-- A null character in the path of a method keeps its module from being loaded. -/
theorem load_of_null_mem_path {e : Endpoint} {module : Module} {unit : String} {m : Method}
    (hwf : e.WellFormed) (h : ofEndpoint unit (Schema.resolveEndpoint e) = .ok module)
    (hm : m ∈ e.methods) (hnull : '\x00' ∈ m.path.raw.toList) :
    load module = .error .nullCharacter := by
  obtain ⟨m', hm', hresolves⟩ :=
    exists_of_mem_forall₂_left (Schema.resolves_resolveEndpoint hwf) hm
  obtain ⟨functions, hfunctions⟩ := Client.exists_methodFunctions (hwf.methods m hm) hresolves
  obtain ⟨f, hf, hdoc⟩ := Client.exists_request_of_mem_methods h hm' hfunctions
  have hpath : m'.path = m.path := by
    obtain ⟨items, -, rfl⟩ := hresolves
    rfl
  have htext : '\x00' ∈ (Client.Layout.moduleText module).toList := by
    refine Client.mem_moduleText hf (by decide) ?_
    rw [hdoc]
    exact Client.Docs.mem_request (hpath ▸ hnull)
  exact if_pos (List.contains_iff_mem.mpr htext)

/-! ## Modules that can be loaded -/

/-- A name that can stand in a comment. -/
structure OneLine (unit : String) : Prop where
  nullFree : Text.NullFree unit
  newline : '\n' ∉ unit.toList
  carriageReturn : '\r' ∉ unit.toList

theorem oneLine_empty : OneLine "" := ⟨by decide, by decide, by decide⟩

theorem plainNewlines_eq_self {cs : List Char} (h : '\r' ∉ cs) : Text.plainNewlines cs = cs := by
  fun_induction Text.plainNewlines cs with
  | case1 => rfl
  | case2 rest ih => exact absurd List.mem_cons_self h
  | case3 c rest hnot ih =>
    obtain ⟨hc, hrest⟩ := not_or.mp (mt List.mem_cons.mpr h)
    rw [if_neg (Ne.symm hc), ih hrest]

theorem headerFault?_of_oneLine {unit : String} (h : OneLine unit) :
    headerFault? ((Text.withPlainNewlines unit).toList.splitOn '\n').tail = none := by
  have hsplit : unit.toList.splitOn '\n' = [unit.toList] := by
    refine List.splitOnP_eq_singleton fun c hc => beq_false_of_ne ?_
    rintro rfl
    exact h.newline hc
  rw [Text.withPlainNewlines, String.toList_ofList, plainNewlines_eq_self h.carriageReturn, hsplit]
  rfl

/-- A module is loaded exactly if its text is a program and all of its classes can be made, and then
its classes are settled. -/
theorem load_eq_ok_iff {module loaded : Module} :
    load module = .ok loaded ↔
      (Text.NullFree (Client.Layout.moduleText module) ∧
        headerFault? ((Text.withPlainNewlines module.unit).toList.splitOn '\n').tail = none ∧
        ∀ c ∈ module.classes, ClassLoads c) ∧ loaded = settled module := by
  have hall : (∀ c ∈ module.classes, ClassLoads c) ↔ module.classes.any nestsTooDeep = false ∧
      module.classes.any hidesClass = false ∧ module.classes.any hasSurrogates = false := by
    simp only [List.any_eq_false, Bool.not_eq_true]
    exact ⟨fun h => ⟨fun c hc => (h c hc).brackets, fun c hc => (h c hc).visible,
      fun c hc => (h c hc).wires⟩, fun h c hc => ⟨h.1 c hc, h.2.1 c hc, h.2.2 c hc⟩⟩
  rw [hall, load]
  cases htext : (Client.Layout.moduleText module).toList.contains '\x00' with
  | true =>
    rw [if_pos rfl]
    constructor
    · intro h
      cases h
    · intro h
      exact absurd (List.contains_iff_mem.mp htext) h.1.1
  | false =>
    have hnull : Text.NullFree (Client.Layout.moduleText module) := by
      rw [Text.NullFree, ← List.contains_iff_mem, htext]
      exact Bool.false_ne_true
    rw [if_neg Bool.false_ne_true, and_iff_right hnull]
    cases headerFault? ((Text.withPlainNewlines module.unit).toList.splitOn '\n').tail with
    | some fault =>
      constructor
      · intro h
        cases h
      · intro h
        cases h.1.1
    | none =>
      cases module.classes.any nestsTooDeep <;> cases module.classes.any hidesClass <;>
        cases module.classes.any hasSurrogates <;> simp [eq_comm]

theorem settled_of_load {module loaded : Module} (h : load module = .ok loaded) :
    loaded = settled module :=
  (load_eq_ok_iff.mp h).2

/-- A module is loaded if its endpoint is clean and its classes can be made. -/
theorem load_of_ofEndpoint {e : Endpoint} {module : Module} {unit : String} (hwf : e.WellFormed)
    (he : e.Clean) (hunit : OneLine unit)
    (h : ofEndpoint unit (Schema.resolveEndpoint e) = .ok module)
    (hclasses : ∀ c ∈ module.classes, ClassLoads c) :
    load module = .ok (settled module) := by
  obtain ⟨hclean, rfl⟩ := Client.clean_of_ofEndpoint (he.resolveEndpoint hwf) h
  exact load_eq_ok_iff.mpr ⟨⟨Client.Layout.nullFree_moduleText hclean hunit.nullFree,
    headerFault?_of_oneLine hunit, hclasses⟩, rfl⟩

/-- Where no literal of the source has a null character, only a class that cannot be made keeps a
module from being loaded. -/
theorem load_of_compile {text unit : String} {compiled : Compilation} {module : Module}
    (hcompiled : compile text unit = .ok compiled) (hok : compiled.diagnostics = [])
    (hnull : Lexer.LiteralsNullFree text unit) (hunit : OneLine unit)
    (hmodule : module ∈ compiled.modules) (hclasses : ∀ c ∈ module.classes, ClassLoads c) :
    load module = .ok (settled module) := by
  obtain ⟨hparsed, hbuilt, hschema, hmodules⟩ := modules_of_compile hcompiled hok
  have hmade := forall₂_imp_of_mem hmodules fun e module he _ hmade => And.intro he hmade
  obtain ⟨e, he, hmem, hmade⟩ := exists_of_mem_forall₂ hmade hmodule
  have hwf := hschema.endpoints e hmem
  rw [hbuilt] at hmem
  exact load_of_ofEndpoint hwf (Schema.clean_of_build hparsed hnull hmem) hunit hmade hclasses

theorem class?_of_compile {text unit : String} {compiled : Compilation} {module : Module}
    {c : ClassDef} (hcompiled : compile text unit = .ok compiled)
    (hmodule : module ∈ compiled.modules) (hc : c ∈ module.classes) :
    module.class? c.name = some c := by
  obtain ⟨e, source, hwf, hmade⟩ := exists_endpoint_of_mem_modules hcompiled hmodule
  have hnames : (module.classes.map (·.name)).Nodup :=
    Client.classNames_of_ofEndpoint hwf hmade ▸ hwf.classes
  exact Client.find?_of_unique hc fun d hd hname => List.inj_on_of_nodup_map hnames hd hc hname

/-- A class of a loaded module is found under its name, settled. -/
theorem class?_of_load {text unit : String} {compiled : Compilation} {module loaded : Module}
    {c : ClassDef} (hcompiled : compile text unit = .ok compiled)
    (hmodule : module ∈ compiled.modules) (hc : c ∈ module.classes)
    (hload : load module = .ok loaded) : loaded.class? c.name = some (settledClass c) := by
  rw [settled_of_load hload, class?_settled, class?_of_compile hcompiled hmodule hc,
    Option.map_some]

end Wire
end EndpointDsl
