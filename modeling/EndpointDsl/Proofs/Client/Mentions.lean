import EndpointDsl.Proofs.Client.Names
import EndpointDsl.Proofs.Text.Tokens

/-!
The names that the code of a generated module mentions.

They are read from the text: types and defaults of fields, signatures of methods and functions, and
the lines of imports.  Types and signatures turn out to mention what they were made of, and what
the types of the fields need is imported.
-/

namespace EndpointDsl
namespace Client

open Text (usedNames EndsUse Breaks endsUse_nil endsUse_cons)

/-! ## Code that mentions names -/

/-- Parameters and result of the method that replaces a field. -/
def builderSignature (className : String) (f : FieldDef) : String :=
  "(self, value: " ++ f.fieldType.text ++ ") -> " ++ className

def FunctionDef.signature (f : FunctionDef) : String :=
  "(" ++ (Layout.signature f.body).1 ++ ") -> " ++ (Layout.signature f.body).2

/-- The names that a class uses in the types and defaults of its fields and in its methods.  A
method has its receiver besides. -/
def ClassDef.usedNames (c : ClassDef) : List String :=
  c.fields.flatMap (fun f =>
    Text.usedNames f.fieldType.text.toList ++ Text.usedNames (Layout.fieldDefault f).toList) ++
  if c.builder then c.fields.flatMap fun f =>
    (Text.usedNames (builderSignature c.name f).toList).filter (· != "self")
  else []

def Module.usedNames (m : Module) : List String :=
  m.classes.flatMap (·.usedNames) ++
    m.functions.flatMap fun f => Text.usedNames f.signature.toList

def Module.importLines (m : Module) : List String :=
  "from __future__ import annotations" :: (Layout.importGroups m).flatten

/-- The names on import lines, after the place that they come from. -/
def Module.boundNames (m : Module) : List String :=
  m.importLines.flatMap fun line => (Text.words line.toList).drop 3

/-- The names that types and defaults take from the language itself. -/
def builtins : List String := ["str", "int", "float", "bool", "bytes", "list", "None"]

/-! ## Types -/

/-- The names in the text of a type. -/
def FieldType.names : FieldType → List String
  | scalar kind => [scalarName kind]
  | list item => "list" :: item.names
  | optional inner => "Optional" :: inner.names
  | unit => ["None"]
  | model className => [className]

/-- A text that is one word. -/
def IsWord (name : String) : Prop := Name.WordChars name ∧ name.toList ≠ []

theorem isWord_of_isLegal {name : String} (h : Name.IsLegal name) : IsWord name := by
  refine ⟨Name.wordChars_of_isIdent h.ident, fun hnil => ?_⟩
  have hident := h.ident
  rw [hnil] at hident
  cases hident

section

variable {t : FieldType} {rest : List Char}

theorem usedNames_text (h : ∀ name ∈ t.className?, IsWord name) (hrest : EndsUse rest) :
    usedNames (t.text.toList ++ rest) = t.names ++ usedNames rest := by
  have hclose : ∀ rest, EndsUse (']' :: rest) := fun rest => endsUse_cons (by decide)
  induction t generalizing rest with
  | scalar kind =>
    have hword : IsWord (scalarName kind) := by cases kind <;> exact ⟨by decide, by decide⟩
    exact Text.usedNames_word hword.1 hword.2 hrest
  | list item ih =>
    rw [FieldType.text, String.toList_append, String.toList_append, List.append_assoc,
      List.append_assoc]
    show "list" :: usedNames (item.text.toList ++ ']' :: rest) = _
    rw [ih h (hclose rest), Text.usedNames_symbol (by decide) (by decide) (by decide)]
    rfl
  | optional inner ih =>
    rw [FieldType.text, String.toList_append, String.toList_append, List.append_assoc,
      List.append_assoc]
    show "Optional" :: usedNames (inner.text.toList ++ ']' :: rest) = _
    rw [ih h (hclose rest), Text.usedNames_symbol (by decide) (by decide) (by decide)]
    rfl
  | unit =>
    have hword : IsWord "None" := ⟨by decide, by decide⟩
    exact Text.usedNames_word hword.1 hword.2 hrest
  | model className =>
    obtain ⟨hword, hne⟩ := h className rfl
    exact Text.usedNames_word hword hne hrest

theorem mem_names_cases {name : String} (h : name ∈ t.names) :
    name ∈ builtins ∨ (∃ i ∈ t.imports, i.name = name) ∨ t.className? = some name := by
  induction t with
  | scalar kind =>
    rw [List.mem_singleton.mp h]
    cases kind <;> decide
  | list item ih =>
    rcases List.mem_cons.mp h with rfl | h
    · exact Or.inl (by decide)
    · exact ih h
  | optional inner ih =>
    rcases List.mem_cons.mp h with rfl | h
    · exact Or.inr (Or.inl ⟨_, List.mem_cons_self, rfl⟩)
    · rcases ih h with hbuiltin | ⟨i, hi, hname⟩ | hclass
      · exact Or.inl hbuiltin
      · exact Or.inr (Or.inl ⟨i, List.mem_cons_of_mem _ hi, hname⟩)
      · exact Or.inr (Or.inr hclass)
  | unit => exact Or.inl (List.mem_singleton.mp h ▸ by decide)
  | model className => exact Or.inr (Or.inr (congrArg some (List.mem_singleton.mp h).symm))

theorem mem_names_of_mem_imports {i : Import} (h : i ∈ t.imports) : i.name ∈ t.names := by
  induction t with
  | scalar kind =>
    revert i
    cases kind <;> decide
  | list item ih => exact List.mem_cons_of_mem _ (ih h)
  | optional inner ih =>
    rcases List.mem_cons.mp h with rfl | h
    · exact List.mem_cons_self
    · exact List.mem_cons_of_mem _ (ih h)
  | unit => cases h
  | model className => cases h

end

/-! ## Defaults and signatures -/

def Fallback.names : Fallback → List String
  | required | builder _ _ => []
  | absent => ["None"]
  | zero value => [value.factory]

theorem usedNames_fieldDefault (f : FieldDef) :
    usedNames (Layout.fieldDefault f).toList = "Field" :: f.fallback.names := by
  have hclose : usedNames ((Text.asciiLiteral f.wire).toList ++ [')']) = [] := by
    rw [Text.usedNames_asciiLiteral]
    rfl
  unfold Layout.fieldDefault
  generalize f.fallback = fallback
  have hjoin : ∀ before : String,
      (before ++ ("alias=" ++ Layout.stringLiteral f.wire) ++ ")").toList =
      before.toList ++ ("alias=".toList ++ ((Text.asciiLiteral f.wire).toList ++ [')'])) := by
    intro before
    rw [String.toList_append, String.toList_append, String.toList_append, List.append_assoc,
      List.append_assoc]
    rfl
  generalize (Text.asciiLiteral f.wire).toList ++ [')'] = rest at hclose hjoin
  cases fallback with
  | required | builder =>
    show usedNames ("Field(" ++ ("alias=" ++ Layout.stringLiteral f.wire) ++ ")").toList = _
    rw [hjoin]
    show "Field" :: usedNames rest = _
    rw [hclose]
    rfl
  | absent =>
    show usedNames ("Field(default=None, " ++
      ("alias=" ++ Layout.stringLiteral f.wire) ++ ")").toList = _
    rw [hjoin]
    show "Field" :: "None" :: usedNames rest = _
    rw [hclose]
    rfl
  | zero value =>
    show usedNames ("Field(default_factory=" ++ value.factory ++ ", " ++
      ("alias=" ++ Layout.stringLiteral f.wire) ++ ")").toList = _
    rw [hjoin]
    have hfactory : usedNames (("Field(default_factory=" ++ value.factory ++ ", ").toList ++
        ("alias=".toList ++ rest)) = "Field" :: value.factory :: usedNames rest := by
      cases value <;> rfl
    rw [hfactory, hclose]
    rfl

/-- A default mentions the function that declares fields, and nothing else that is not built in. -/
theorem mem_fieldDefault_cases {f : FieldDef} {name : String}
    (h : name ∈ usedNames (Layout.fieldDefault f).toList) : name = "Field" ∨ name ∈ builtins := by
  rw [usedNames_fieldDefault] at h
  refine (List.mem_cons.mp h).imp_right fun hmem => ?_
  revert name
  cases f.fallback with
  | required | builder => exact nofun
  | absent => decide
  | zero value => cases value <;> decide

/-- The classes that a signature mentions. -/
def Body.classNames : Body → List String
  | .uri params _ _ _ => params.map (·.className)
  | .request params _ _ _ _ _ => params.map (·.className)
  | .response className => [className]
  | .headers className => [className]

/-- What else a signature mentions. -/
def Body.plainNames : Body → List String
  | .uri _ _ _ _ => ["str"]
  | .request _ _ _ _ _ _ => ["runtime"]
  | .response _ => ["runtime"]
  | .headers _ => ["runtime"]

theorem usedNames_paramList {params : List Param} {rest : List Char}
    (h : ∀ p ∈ params, IsWord p.className) (hrest : EndsUse rest) :
    usedNames ((Layout.paramList params).toList ++ rest) =
      params.map (·.className) ++ usedNames rest := by
  have hparam : ∀ (p : Param) (rest : List Char), IsWord p.className → EndsUse rest →
      usedNames ((argumentName p.role ++ ": " ++ p.className).toList ++ rest) =
        p.className :: usedNames rest := by
    intro p rest hword hrest
    have hargument : IsWord (argumentName p.role) := by
      cases p.role <;> exact ⟨by decide, by decide⟩
    rw [String.toList_append, String.toList_append, List.append_assoc, List.append_assoc]
    show usedNames ((argumentName p.role).toList ++ ':' :: ' ' :: (p.className.toList ++ rest)) = _
    rw [Text.usedNames_label hargument.1 hargument.2 (Or.inr rfl),
      Text.usedNames_symbol (by decide) (by decide) (by decide),
      Text.usedNames_word hword.1 hword.2 hrest]
  unfold Layout.paramList
  induction params with
  | nil => rw [List.map_nil, String.intercalate_nil]; rfl
  | cons p others ih =>
    obtain ⟨hp, hothers⟩ := List.forall_mem_cons.mp h
    cases others with
    | nil =>
      rw [List.map_singleton, String.intercalate_singleton]
      exact hparam p rest hp hrest
    | cons q more =>
      rw [List.map_cons, List.map_cons, String.intercalate_cons_cons, String.toList_append,
        String.toList_append, List.append_assoc, List.append_assoc]
      refine (hparam p _ hp (endsUse_cons (by decide))).trans ?_
      rw [List.map_cons, List.cons_append, ← ih hothers]
      rfl

theorem usedNames_sole {name : String} (h : IsWord name) : usedNames name.toList = [name] := by
  rw [← List.append_nil name.toList, Text.usedNames_word h.1 h.2 endsUse_nil]
  rfl

/-- The arrow before a result mentions nothing. -/
theorem usedNames_arrow (result : List Char) :
    usedNames (") -> ".toList ++ result) = usedNames result := rfl

theorem endsUse_arrow (result : List Char) : EndsUse (") -> ".toList ++ result) :=
  endsUse_cons (by decide)

/-- The names in the signature of a function. -/
theorem mem_usedNames_signature {f : FunctionDef} {name : String}
    (h : ∀ name ∈ f.body.classNames, IsWord name) :
    name ∈ usedNames f.signature.toList ↔
      name ∈ f.body.plainNames ∨ name ∈ f.body.classNames := by
  rw [FunctionDef.signature, String.toList_append, String.toList_append, String.toList_append,
    List.append_assoc, List.append_assoc]
  show name ∈ usedNames ((Layout.signature f.body).1.toList ++
    (") -> ".toList ++ (Layout.signature f.body).2.toList)) ↔ _
  generalize f.body = body at h ⊢
  cases body with
  | uri params template values query =>
    have hparams : ∀ p ∈ params, IsWord p.className := fun p hp =>
      h p.className (List.mem_map_of_mem hp)
    have hstr : usedNames "str".toList = ["str"] := rfl
    rw [Layout.signature, usedNames_paramList hparams (endsUse_arrow _), usedNames_arrow, hstr,
      List.mem_append, or_comm]
    rfl
  | request params verb uriFunction uriRoles hasHeader body =>
    have hparams : ∀ p ∈ params, IsWord p.className := fun p hp =>
      h p.className (List.mem_map_of_mem hp)
    have hprepared : usedNames "runtime.PreparedRequest".toList = ["runtime"] := rfl
    rw [Layout.signature, usedNames_paramList hparams (endsUse_arrow _), usedNames_arrow, hprepared,
      List.mem_append, or_comm]
    rfl
  | response className =>
    have hpayload : ∀ rest,
        usedNames ("payload: runtime.Payload".toList ++ (") -> ".toList ++ rest)) =
          "runtime" :: usedNames rest := fun _ => rfl
    rw [Layout.signature, hpayload, usedNames_sole (h className List.mem_cons_self), List.mem_cons]
    exact or_congr_left List.mem_singleton.symm
  | headers className =>
    have hheaders : ∀ rest,
        usedNames ("headers: runtime.Headers".toList ++ (") -> ".toList ++ rest)) =
          "runtime" :: usedNames rest := fun _ => rfl
    rw [Layout.signature, hheaders, usedNames_sole (h className List.mem_cons_self), List.mem_cons]
    exact or_congr_left List.mem_singleton.symm

theorem mem_usedNames_builder_iff {className name : String} {f : FieldDef}
    (hclass : IsWord className) (h : ∀ name ∈ f.fieldType.className?, IsWord name) :
    name ∈ (usedNames (builderSignature className f).toList).filter (· != "self") ↔
      name ≠ "self" ∧ (name ∈ f.fieldType.names ∨ name = className) := by
  have hreceiver : ∀ rest, usedNames ("(self, value: ".toList ++ rest) = "self" :: usedNames rest :=
    fun _ => rfl
  have hnames : usedNames (builderSignature className f).toList =
      "self" :: (f.fieldType.names ++ [className]) := by
    show usedNames ("(self, value: " ++ f.fieldType.text ++ ") -> " ++ className).toList = _
    rw [String.toList_append, String.toList_append, String.toList_append, List.append_assoc,
      List.append_assoc, hreceiver, usedNames_text h (endsUse_arrow _), usedNames_arrow,
      usedNames_sole hclass]
  rw [hnames, List.mem_filter, List.mem_cons, List.mem_append, List.mem_singleton, bne_iff_ne,
    and_comm]
  exact and_congr_right fun hself => or_iff_right hself

/-! ## Imports -/

/-- The places that names are imported from. -/
def importPlaces : List String := ["datetime", "typing", "pydantic"]

theorem mem_importPlaces_of_mem_imports {m : Module} {i : Import} (h : i ∈ m.imports) :
    i.module ∈ importPlaces := by
  have hall : ∀ i ∈ Layout.knownImports, i.module ∈ importPlaces := by decide
  exact hall i (Layout.mem_knownImports h)

theorem words_names {names : List String} (h : ∀ name ∈ names, IsWord name) :
    Text.words (String.intercalate ", " names).toList = names := by
  induction names with
  | nil => rfl
  | cons name others ih =>
    obtain ⟨⟨hword, hne⟩, hothers⟩ := List.forall_mem_cons.mp h
    cases others with
    | nil =>
      rw [String.intercalate_singleton, ← List.append_nil name.toList,
        Text.words_word hword hne endsUse_nil.breaks]
      rfl
    | cons other more =>
      have hcomma : ∀ rest, Breaks (',' :: rest) := by
        rintro rest _ ⟨⟩
        rfl
      rw [String.intercalate_cons_cons, String.toList_append, String.toList_append,
        List.append_assoc]
      refine (Text.words_word hword hne (hcomma _)).trans (congrArg _ ?_)
      exact (Text.words_symbol rfl (by decide)).trans ((Text.words_symbol rfl (by decide)).trans
        (ih hothers))

theorem drop_words_importLine {imports : List Import} {place : String}
    (hplace : place ∈ importPlaces) (hwords : ∀ i ∈ imports, IsWord i.name) :
    (Layout.importLine imports place).flatMap (fun line => (Text.words line.toList).drop 3) =
      Layout.importedNames place imports := by
  have hnames : ∀ name ∈ Layout.importedNames place imports, IsWord name := by
    intro name hname
    obtain ⟨i, hi, -, rfl⟩ := Layout.mem_importedNames_iff.mp hname
    exact hwords i hi
  unfold Layout.importLine
  split
  · next hnone => rw [hnone]; rfl
  · next names hsome =>
    have hopening : ∀ rest, Text.words (("from " ++ place ++ " import ").toList ++ rest) =
        "from" :: place :: "import" :: Text.words rest := by
      intro rest
      simp only [importPlaces, List.mem_cons, List.not_mem_nil, or_false] at hplace
      rcases hplace with rfl | rfl | rfl <;> rfl
    rw [List.flatMap_singleton, String.toList_append]
    refine (congrArg (List.drop 3) (hopening _)).trans ?_
    rw [words_names hnames]
    rfl

/-- The names that the lines of the imports bind, line by line. -/
theorem boundNames_eq (m : Module) :
    m.boundNames = "annotations" :: ((Layout.importedNames "datetime" m.imports ++
      Layout.importedNames "typing" m.imports) ++
      (Layout.importedNames "pydantic" m.imports ++ ["runtime"])) := by
  have hwords : ∀ i ∈ m.imports, IsWord i.name := by
    have hall : ∀ i ∈ Layout.knownImports, Name.WordChars i.name ∧ i.name.toList ≠ [] := by decide
    exact fun i hi => hall i (Layout.mem_knownImports hi)
  have hplaces : ∀ place ∈ importPlaces,
      (Layout.importLine m.imports place).flatMap (fun line => (Text.words line.toList).drop 3) =
        Layout.importedNames place m.imports :=
    fun place hplace => drop_words_importLine hplace hwords
  rw [Module.boundNames, Module.importLines, List.flatMap_cons, Layout.importGroups,
    List.flatten_filter_not_isEmpty]
  simp only [List.flatten_cons, List.flatten_nil, List.append_nil, List.flatMap_append]
  rw [hplaces "datetime" (by decide), hplaces "typing" (by decide),
    hplaces "pydantic" (by decide)]
  rfl

/-- The names that are bound are the imports of the fields and two that stand in every module. -/
theorem mem_boundNames_iff {m : Module} {name : String} :
    name ∈ m.boundNames ↔ name = "annotations" ∨ name = "runtime" ∨
      ∃ i ∈ m.imports, i.name = name := by
  rw [boundNames_eq]
  simp only [List.mem_cons, List.mem_append, Layout.mem_importedNames_iff, List.not_mem_nil,
    or_false]
  constructor
  · rintro (rfl | (⟨i, hi, -, hname⟩ | ⟨i, hi, -, hname⟩) | ⟨i, hi, -, hname⟩ | rfl)
    · exact Or.inl rfl
    · exact Or.inr (Or.inr ⟨i, hi, hname⟩)
    · exact Or.inr (Or.inr ⟨i, hi, hname⟩)
    · exact Or.inr (Or.inr ⟨i, hi, hname⟩)
    · exact Or.inr (Or.inl rfl)
  · rintro (rfl | rfl | ⟨i, hi, rfl⟩)
    · exact Or.inl rfl
    · exact Or.inr (Or.inr (Or.inr rfl))
    · have hplace := mem_importPlaces_of_mem_imports hi
      simp only [importPlaces, List.mem_cons, List.not_mem_nil, or_false] at hplace
      rcases hplace with hplace | hplace | hplace
      · exact Or.inr (Or.inl (Or.inl ⟨i, hi, hplace, rfl⟩))
      · exact Or.inr (Or.inl (Or.inr ⟨i, hi, hplace, rfl⟩))
      · exact Or.inr (Or.inr (Or.inl ⟨i, hi, hplace, rfl⟩))

/-! ## The text of a module -/

/-- The code that names are read from stands in the lines of the module. -/
structure Module.Emits (m : Module) : Prop where
  fields : ∀ c ∈ m.classes, ∀ f ∈ c.fields,
    "    " ++ f.attr ++ ": " ++ f.fieldType.text ++ " = " ++ Layout.fieldDefault f ∈
      Layout.classLines c
  builders : ∀ c ∈ m.classes, c.builder = true → ∀ f ∈ c.fields,
    "    def with_" ++ f.attr ++ builderSignature c.name f ++ ":" ∈ Layout.classLines c
  functions : ∀ f ∈ m.functions,
    "def " ++ f.name ++ f.signature ++ ":" ∈ Layout.functionLines f

theorem mem_section {lines : List String} {line : String} (h : line ∈ lines) :
    line ∈ Layout.section_ lines := by
  unfold Layout.section_
  split
  · next hempty =>
    rw [List.isEmpty_iff.mp hempty] at h
    cases h
  · exact List.mem_cons_of_mem _ h

theorem emits (m : Module) : m.Emits where
  fields := by
    intro c _ f hf
    have hline : Layout.fieldLine f ∈ c.fields.map Layout.fieldLine := List.mem_map_of_mem hf
    exact List.mem_append_left _ (List.mem_append_right _ (mem_section hline))
  builders := by
    intro c _ hbuilder f hf
    refine List.mem_append_right _ ?_
    rw [if_pos hbuilder]
    refine List.mem_flatMap.mpr ⟨f, hf, List.mem_cons_of_mem _ (List.mem_cons.mpr (Or.inl ?_))⟩
    show "    def with_" ++ f.attr ++
      ("(self, value: " ++ f.fieldType.text ++ ") -> " ++ c.name) ++ ":" = _
    simp only [String.append_assoc]
    rfl
  functions := by
    intro f _
    refine List.mem_append_left _ (List.mem_cons_of_mem _ (List.mem_cons_of_mem _
      (List.mem_cons.mpr (Or.inl ?_))))
    simp only [FunctionDef.signature, String.append_assoc]
    rfl

end Client
end EndpointDsl
