import EndpointDsl.Proofs.Client.Docs
import EndpointDsl.Proofs.Client.Names
import EndpointDsl.Proofs.Text.TripleQuoted

/-!
Where the documentation strings of a module end.

An escaped text is sealed, and so is all documentation that shows it.  Writing a documentation
string cuts the text at line ends, trims newlines and adds blanks, none of which opens a sealed
text.  So it can be read from its opening quotes, and ends at the quotes written last.
-/

namespace EndpointDsl

open Text

namespace Text

/-- Sealed texts can be put together, and what is bare is sealed. -/
theorem sealed_composable : Composable fun s => Sealed s.toList where
  bare := by
    refine fun h => .of_ordinary fun c hc => ?_
    constructor <;>
    · rintro rfl
      exact h _ hc (by decide)
  append := by
    intro s t hs ht
    rw [String.toList_append]
    exact hs.append ht

end Text

namespace Schema

/-- The names and types of an endpoint are written with identifiers. -/
structure Endpoint.Worded (e : Endpoint) : Prop where
  name : isIdent e.name.toList = true
  names : ∀ m ∈ e.methods, ∀ i ∈ m.items, ∀ name ∈ i.names, isIdent name.toList = true
  types : ∀ m ∈ e.methods, ∀ i ∈ m.items, ∀ type ∈ i.types, ∀ name ∈ type.names,
    isIdent name.toList = true

theorem worded_of_build {text unit : String} {e : Endpoint}
    (h : (Tree.parse text unit).errors = [])
    (he : e ∈ (build (Tree.parse text unit).source).schema.endpoints) : e.Worded where
  name := isIdent_of_mem_endpoints h he
  names := fun _ hm _ hi _ hname => isIdent_of_mem_names h he hm hi hname
  types := fun _ hm _ hi _ htype _ hname => isIdent_of_mem_types h he hm hi htype hname

theorem Item.Resolves.types_eq {i i' : Item} (h : i.Resolves i') : i'.types = i.types := by
  obtain ⟨c, -, hwf, rfl⟩ := h
  cases i with
  | struct s =>
    show (resolveStruct { s with capability := c }).fields.map (·.type) = _
    rw [resolveStruct_eq hwf, List.map_map]
    rfl
  | enum e =>
    show (resolveEnum { e with capability := c }).variants.filterMap (·.payload) = _
    rw [resolveEnum_eq hwf, List.filterMap_map]
    rfl

theorem Endpoint.Worded.resolveEndpoint {e : Endpoint} (h : e.Worded) (hwf : e.WellFormed) :
    (Schema.resolveEndpoint e).Worded := by
  have hitems : ∀ m' ∈ (Schema.resolveEndpoint e).methods, ∀ i' ∈ m'.items,
      ∃ m ∈ e.methods, ∃ i ∈ m.items, i.Resolves i' := by
    intro m' hm' i' hi'
    obtain ⟨m, hm, items, hitems, rfl⟩ := exists_of_mem_forall₂ (resolves_resolveEndpoint hwf) hm'
    obtain ⟨i, hi, hresolves⟩ := exists_of_mem_forall₂ hitems hi'
    exact ⟨m, hm, i, hi, hresolves⟩
  refine ⟨h.name, fun m' hm' i' hi' => ?_, fun m' hm' i' hi' => ?_⟩
  · obtain ⟨m, hm, i, hi, hresolves⟩ := hitems m' hm' i' hi'
    rw [hresolves.names_eq]
    exact h.names m hm i hi
  · obtain ⟨m, hm, i, hi, hresolves⟩ := hitems m' hm' i' hi'
    rw [hresolves.types_eq]
    exact h.types m hm i hi

end Schema

namespace Client

open Schema (Endpoint Item Method)

/-! ## Texts -/

namespace Docs

/-- Escaping seals every text. -/
theorem sealed_escape (s : String) : Sealed (escape s).toList := by
  rw [escape, String.toList_ofList]
  induction s.toList with
  | nil => exact .nil
  | cons c cs ih =>
    rw [List.flatMap_cons]
    refine Sealed.append ?_ ih
    unfold escapeChar
    split
    · next hspecial => exact .escaped (fun hc => hspecial.elim hc.2 hc.1) .nil
    · next hplain =>
      obtain ⟨hbackslash, hquote⟩ := not_or.mp hplain
      exact .plain ⟨hquote, hbackslash⟩ .nil

theorem sealed_spaces (n : Nat) : Sealed (String.ofList (List.replicate n ' ')).toList := by
  rw [String.toList_ofList]
  exact .of_ordinary fun c hc => List.eq_of_mem_replicate hc ▸ by decide

theorem sealed_padded {indent : Nat} {line : String} (h : Sealed line.toList) :
    Sealed (padded indent line).toList := by
  unfold padded
  split
  · exact .nil
  · exact sealed_composable.append (sealed_spaces indent) h

/-- A string in triple quotes with sealed contents. -/
def IsDocstring (s : String) : Prop :=
  ∃ body, s.toList = '"' :: '"' :: '"' :: (body ++ ['"', '"', '"']) ∧ Sealed body

theorem isDocstring_quoted {body : String} (h : Sealed body.toList) :
    IsDocstring ("\"\"\"" ++ body ++ "\"\"\"") := by
  refine ⟨body.toList, ?_, h⟩
  rw [String.toList_append, String.toList_append]
  rfl

/-- A documentation string of a sealed text is one. -/
theorem isDocstring_literal {indent : Nat} {text : String} (h : Sealed text.toList) :
    IsDocstring (literal indent text) := by
  have hlines : ∀ line ∈ lines (trimNewlines text), Sealed line.toList :=
    fun line hline => sealed_of_mem_lines h hline
  unfold literal literal?
  split
  · exact ⟨[], rfl, .nil⟩
  · next line hline =>
    rw [hline] at hlines
    exact isDocstring_quoted (hlines line (List.mem_singleton_self line))
  · next first rest _ hall =>
    rw [hall] at hlines
    obtain ⟨hfirst, hrest⟩ := List.forall_mem_cons.mp hlines
    have hnewline : Sealed "\n".toList := .plain (by decide) .nil
    have hjoined : Sealed
        (String.intercalate "\n" (first :: rest.map (padded indent))).toList := by
      refine sealed_composable.intercalate hnewline (List.forall_mem_cons.mpr ⟨hfirst, ?_⟩)
      exact List.forall_mem_map.mpr fun line hline => sealed_padded (hrest line hline)
    have hbody := sealed_composable.append (sealed_composable.append hjoined hnewline)
      (sealed_spaces indent)
    have hdocstring := isDocstring_quoted hbody
    simp only [String.append_assoc] at hdocstring ⊢
    exact hdocstring

/-- Whatever follows, a documentation string is read to its last quotes. -/
theorem IsDocstring.reads {s : String} (h : IsDocstring s) :
    ∃ body, s.toList = '"' :: '"' :: '"' :: (body ++ ['"', '"', '"']) ∧
      ∀ rest, tripleQuoted? (s.toList ++ rest) = some (body, rest) := by
  obtain ⟨body, hs, hsealed⟩ := h
  refine ⟨body, hs, fun rest => ?_⟩
  have hread := @tripleQuoted?_of_sealed body rest hsealed
  rw [hs]
  simpa using hread

end Docs

/-! ## Modules -/

/-- What documentation shows of an endpoint is sealed. -/
theorem shows_of_worded {e : Endpoint} (h : e.Worded) : e.Shows fun s => Sealed s.toList := by
  refine ⟨h.name, fun m hm => ⟨Docs.sealed_escape _, fun i hi => ?_⟩⟩
  have hnames := h.names m hm i hi
  have htypes := fun type htype =>
    Schema.holds_describe sealed_composable (h.types m hm i hi type htype)
  cases i with
  | struct s =>
    exact fun f hf => ⟨hnames _ (List.mem_cons_of_mem _ (List.mem_map.mpr ⟨f, hf, rfl⟩)),
      htypes _ (List.mem_map.mpr ⟨f, hf, rfl⟩), Docs.sealed_escape _⟩
  | enum e =>
    exact fun v hv => ⟨hnames _ (List.mem_cons_of_mem _ (List.mem_map.mpr ⟨v, hv, rfl⟩)),
      fun type htype => htypes _ (List.mem_filterMap.mpr ⟨v, hv, htype⟩), Docs.sealed_escape _⟩

/-- The documentation string of a builder method. -/
def builderDocstring (f : FieldDef) : String :=
  "\"\"\"Return a copy with " ++ Docs.code f.attr ++ " replaced.\"\"\""

/-- The documentation strings of a class, behind four blanks, and of its builder methods, behind
eight. -/
def ClassDef.docstrings (c : ClassDef) : List (Nat × String) :=
  (4, Docs.literal 4 c.doc) ::
    if c.builder then c.fields.map fun f => (8, builderDocstring f) else []

/-- The documentation strings of a module, of its classes and of its functions. -/
def Module.docstrings (module : Module) : List (Nat × String) :=
  (0, Docs.literal 0 module.doc) ::
    (module.classes.flatMap ClassDef.docstrings ++
      module.functions.map fun f => (4, Docs.literal 4 f.doc))

theorem isDocstring_builderDocstring {f : FieldDef} (h : isIdent f.attr.toList = true) :
    Docs.IsDocstring (builderDocstring f) := by
  have hbody := sealed_composable.append
    (sealed_composable.append
      (sealed_composable.chars (show IsBare "Return a copy with ".toList by decide))
      (Docs.holds_code sealed_composable (sealed_composable.ident h)))
    (sealed_composable.chars (show IsBare " replaced.".toList by decide))
  have hdocstring := Docs.isDocstring_quoted hbody
  simp only [String.append_assoc, String.ofList_toList] at hdocstring ⊢
  exact hdocstring

/-- Every documentation string of a module is one if those of its attributes are identifiers. -/
theorem isDocstring_of_mem_docstrings {module : Module}
    (hdocs : ∀ doc ∈ module.docs, Sealed doc.toList)
    (hattrs : ∀ c ∈ module.classes, ∀ f ∈ c.fields, isIdent f.attr.toList = true)
    {s : Nat × String} (hs : s ∈ module.docstrings) : Docs.IsDocstring s.2 := by
  rw [Module.docs, List.cons_append, List.forall_mem_cons, List.forall_mem_append] at hdocs
  obtain ⟨hmodule, hclasses, hfunctions⟩ := hdocs
  rcases List.mem_cons.mp hs with rfl | hs
  · dsimp only
    exact Docs.isDocstring_literal hmodule
  · rcases List.mem_append.mp hs with hs | hs
    · obtain ⟨c, hc, hs⟩ := List.mem_flatMap.mp hs
      rcases List.mem_cons.mp hs with rfl | hs
      · dsimp only
        exact Docs.isDocstring_literal (hclasses _ (List.mem_map.mpr ⟨c, hc, rfl⟩))
      · split at hs
        · obtain ⟨f, hf, rfl⟩ := List.mem_map.mp hs
          exact isDocstring_builderDocstring (hattrs c hc f hf)
        · cases hs
    · obtain ⟨f, hf, rfl⟩ := List.mem_map.mp hs
      dsimp only
      exact Docs.isDocstring_literal (hfunctions _ (List.mem_map.mpr ⟨f, hf, rfl⟩))

/-! ## The text of a module -/

/-- The text ends a line, or has none. -/
def EndsLine (cs : List Char) : Prop := cs = [] ∨ cs.getLast? = some '\n'

theorem toList_block_append (xs ys : List String) :
    (Layout.block (xs ++ ys)).toList = (Layout.block xs).toList ++ (Layout.block ys).toList := by
  rw [Layout.block, List.map_append, String.join_append, String.toList_append]
  rfl

theorem toList_block_cons (line : String) (lines : List String) :
    (Layout.block (line :: lines)).toList =
      line.toList ++ '\n' :: (Layout.block lines).toList := by
  simp [Layout.block]

theorem endsLine_block (lines : List String) : EndsLine (Layout.block lines).toList := by
  rcases List.eq_nil_or_concat lines with rfl | ⟨front, last, rfl⟩
  · exact Or.inl rfl
  · refine Or.inr ?_
    rw [List.concat_eq_append, toList_block_append, toList_block_cons]
    simp [Layout.block]

/-- A line of a block stands between two line ends. -/
theorem exists_of_mem_block {lines : List String} {line : String} (h : line ∈ lines) :
    ∃ before after, EndsLine before ∧
      (Layout.block lines).toList = before ++ line.toList ++ '\n' :: after := by
  obtain ⟨xs, ys, rfl⟩ := List.append_of_mem h
  refine ⟨_, (Layout.block ys).toList, endsLine_block xs, ?_⟩
  rw [toList_block_append, toList_block_cons, List.append_assoc]

/-- A documentation string behind its blanks. -/
def indented (s : Nat × String) : String := String.ofList (List.replicate s.1 ' ') ++ s.2

theorem toList_indented (s : Nat × String) :
    (indented s).toList = List.replicate s.1 ' ' ++ s.2.toList := by
  rw [indented, String.toList_append, String.toList_ofList]

theorem indented_eq {n : Nat} {blanks : String} (s : String)
    (h : String.ofList (List.replicate n ' ') = blanks) : indented (n, s) = blanks ++ s := by
  rw [← h, indented]

theorem indented_mem_builderLines (className : String) (f : FieldDef) :
    indented (8, builderDocstring f) ∈ Layout.builderLines className f := by
  have hassoc : ∀ a b c d : String, a ++ (b ++ c ++ d) = a ++ b ++ c ++ d := by
    intro a b c d
    simp only [String.append_assoc]
  have hstart :
      "        " ++ "\"\"\"Return a copy with " = "        \"\"\"Return a copy with " := by
    decide
  have hline : indented (8, builderDocstring f) =
      "        \"\"\"Return a copy with " ++ Docs.code f.attr ++ " replaced.\"\"\"" := by
    rw [indented_eq (builderDocstring f) (show _ = "        " by decide), ← hstart]
    exact hassoc _ _ _ _
  rw [hline]
  simp [Layout.builderLines]

theorem indented_mem_classLines {c : ClassDef} {s : Nat × String} (hs : s ∈ c.docstrings) :
    indented s ∈ Layout.classLines c := by
  rw [ClassDef.docstrings] at hs
  rcases List.mem_cons.mp hs with rfl | hs
  · rw [indented_eq (Docs.literal 4 c.doc) (show _ = "    " by decide)]
    simp [Layout.classLines]
  · split at hs
    · next hbuilder =>
      obtain ⟨f, hf, rfl⟩ := List.mem_map.mp hs
      rw [Layout.classLines, if_pos hbuilder]
      exact List.mem_append_right _
        (List.mem_flatMap.mpr ⟨f, hf, indented_mem_builderLines c.name f⟩)
    · cases hs

theorem indented_mem_functionLines (f : FunctionDef) :
    indented (4, Docs.literal 4 f.doc) ∈ Layout.functionLines f := by
  rw [indented_eq (Docs.literal 4 f.doc) (show _ = "    " by decide)]
  simp [Layout.functionLines]

/-- The text of a module has a line for every documentation string. -/
theorem exists_lines_of_docstrings (module : Module) :
    ∃ lines, Layout.moduleText module = Layout.block lines ∧
      ∀ s ∈ module.docstrings, indented s ∈ lines := by
  refine ⟨_, rfl, fun s hs => ?_⟩
  rw [Module.docstrings] at hs
  rcases List.mem_cons.mp hs with rfl | hs
  · rw [indented_eq (Docs.literal 0 module.doc) (show _ = "" by decide), String.empty_append]
    simp
  · rcases List.mem_append.mp hs with hs | hs
    · obtain ⟨c, hc, hs⟩ := List.mem_flatMap.mp hs
      exact List.mem_append_left _ (List.mem_append_left _ (List.mem_append_right _
        (List.mem_flatMap.mpr ⟨c, hc, indented_mem_classLines hs⟩)))
    · obtain ⟨f, hf, rfl⟩ := List.mem_map.mp hs
      exact List.mem_append_left _ (List.mem_append_right _
        (List.mem_flatMap.mpr ⟨f, hf, indented_mem_functionLines f⟩))

end Client

open Client (Docs.literal Docs.literal? EndsLine Layout.moduleText)

/-- In every module of a source that compiles, each documentation text has a documentation string.
Each documentation string stands on lines of its own, and reading it from its opening quotes ends
at the closing quotes that it was written with, whatever follows. -/
theorem docstrings_end_where_written {text unit : String} {compiled : Compilation}
    {module : Client.Module} (hcompiled : compile text unit = .ok compiled)
    (hok : compiled.diagnostics = []) (hmodule : module ∈ compiled.modules) :
    (∀ doc ∈ module.docs, ∀ indent,
      Docs.literal? indent doc = some (Docs.literal indent doc)) ∧
    ∀ s ∈ module.docstrings,
      (∃ before after, EndsLine before ∧ (Layout.moduleText module).toList =
        before ++ List.replicate s.1 ' ' ++ s.2.toList ++ '\n' :: after) ∧
      ∃ body, s.2.toList = '"' :: '"' :: '"' :: (body ++ ['"', '"', '"']) ∧
        ∀ rest, tripleQuoted? (s.2.toList ++ rest) = some (body, rest) := by
  obtain ⟨hparsed, hbuilt, hschema, hmodules⟩ := modules_of_compile hcompiled hok
  obtain ⟨e, he, hmade⟩ := exists_of_mem_forall₂ hmodules hmodule
  have hwf := hschema.endpoints e he
  rw [hbuilt] at he
  have hspelled : ∀ m ∈ e.methods, m.Spelled := fun m hm =>
    Schema.spelled_of_build hparsed he hm (hwf.methods m hm)
  have hnamed := Client.wellNamed_of_ofEndpoint hwf hspelled hmade
  have hworded := (Schema.worded_of_build hparsed he).resolveEndpoint hwf
  have hdocs : ∀ doc ∈ module.docs, Sealed doc.toList :=
    Client.holds_of_mem_docs sealed_composable (Client.shows_of_worded hworded) hmade
  refine ⟨fun doc hdoc indent => ?_, fun s hs => ⟨?_, ?_⟩⟩
  · obtain ⟨literal, hliteral⟩ := Option.isSome_iff_exists.mp
      (Client.literal?_isSome_of_mem_docs hmade hdoc indent)
    rw [Docs.literal, hliteral, Option.getD_some]
  · obtain ⟨lines, htext, hlines⟩ := Client.exists_lines_of_docstrings module
    obtain ⟨before, after, hends, hblock⟩ := Client.exists_of_mem_block (hlines s hs)
    refine ⟨before, after, hends, ?_⟩
    rw [htext, hblock, Client.toList_indented, ← List.append_assoc before]
  · exact (Client.isDocstring_of_mem_docstrings hdocs
      (fun c hc f hf => (hnamed.attributes c hc f hf).1.ident) hs).reads

namespace Client

open Schema (Endpoint)

/-- A path of three quotes and a backslash. -/
def quotesText : String := "[pub A:\x7bGET \"/\\\"\\\"\\\"\\\\\"=>\x7b\x7d\x7d]"

def quotesEndpoint : Endpoint where
  name := "A"
  isPublic := true
  methods := [⟨.get, ⟨"/\"\"\"\\", [.literal "/\"\"\"\\"]⟩, [], Schema.onFirstLine 8⟩]
  location := Schema.onFirstLine 0

theorem quotes_built : (Tree.parse quotesText "").errors = [] ∧
    (Schema.build (Tree.parse quotesText "").source).errors = [] ∧
    (Schema.build (Tree.parse quotesText "").source).schema.endpoints = [quotesEndpoint] := by
  cbv

theorem quotesEndpoint_wellFormed : quotesEndpoint.WellFormed :=
  Schema.wellFormed_of_bare_method rfl rfl rfl

/-- The documentation string of the module, where the path is shown escaped. -/
def quotesDocstring : String :=
  "\"\"\"Public endpoint \x60\x60A\x60\x60.\n\nMethods:\n" ++
    "    \x60\x60GET /\\\"\\\"\\\"\\\\\x60\x60\n\"\"\""

/-- The quotes of a path do not end the documentation that shows it. -/
theorem quotes_in_path_read : ∃ compiled module body,
    compile quotesText "" = .ok compiled ∧ compiled.diagnostics = [] ∧
    module ∈ compiled.modules ∧ (0, quotesDocstring) ∈ module.docstrings ∧
    quotesDocstring.toList = '"' :: '"' :: '"' :: (body ++ ['"', '"', '"']) ∧
    tripleQuoted? (quotesDocstring.toList ++ ['\n']) = some (body, ['\n']) := by
  obtain ⟨compiled, module, hcompiled, hok, -, hmodules, hmade⟩ :=
    exists_sole_module quotes_built quotesEndpoint_wellFormed
  have hmodule : module ∈ compiled.modules := hmodules ▸ List.mem_singleton_self _
  have hdoc : Docs.literal 0 module.doc = quotesDocstring := by
    have hsame : Schema.resolveEndpoint quotesEndpoint = quotesEndpoint := rfl
    obtain ⟨parts, -, h⟩ := bind_eq_ok_iff.mp hmade
    cases h
    dsimp only
    rw [hsame]
    decide +kernel
  have hmem : (0, quotesDocstring) ∈ module.docstrings := by
    rw [Module.docstrings, hdoc]
    exact List.mem_cons_self
  obtain ⟨-, hdocstrings⟩ := docstrings_end_where_written hcompiled hok hmodule
  obtain ⟨-, body, hbody, hreads⟩ := hdocstrings _ hmem
  exact ⟨compiled, module, body, hcompiled, hok, hmodule, hmem, hbody, hreads _⟩

end Client
end EndpointDsl
