import EndpointDsl.Client.Docs
import EndpointDsl.Client.Module
import EndpointDsl.Text.Escape

/-!
The text of a generated module and of the package that gathers the modules.
-/

namespace EndpointDsl
namespace Client
namespace Layout

def stringLiteral (s : String) : String := Text.asciiLiteral s

def literalList (items : List String) : String :=
  String.intercalate ", " (items.map stringLiteral)

def tupleLiteral (items : List String) : String :=
  match items with
  | [item] => "(" ++ stringLiteral item ++ ",)"
  | _ => "(" ++ literalList items ++ ")"

def braces (s : String) : String := "\x7b" ++ s ++ "\x7d"

def setLiteral (items : List String) : String := "frozenset(" ++ braces (literalList items) ++ ")"

/-- Lines, each ended by a newline. -/
def block (lines : List String) : String := String.join (lines.map (· ++ "\n"))

/-! ## Imports -/

def insertSorted (name : String) : List String → List String
  | [] => [name]
  | n :: rest =>
    if name = n then n :: rest
    else if name < n then name :: n :: rest
    else n :: insertSorted name rest

/-- The names imported from a module, each once, in ascending order. -/
def importedNames (module : String) (imports : List Import) : List String :=
  (imports.filter (·.module == module)).foldl (fun names i => insertSorted i.name names) []

def importLine (imports : List Import) (module : String) : List String :=
  match importedNames module imports with
  | [] => []
  | names => [s!"from {module} import " ++ String.intercalate ", " names]

/-- Import lines in groups: the standard library, the model library, the run-time support. -/
def importGroups (m : Module) : List (List String) :=
  let imports := m.imports
  [importLine imports "datetime" ++ importLine imports "typing", importLine imports "pydantic",
   ["from restify import runtime"]].filter (!·.isEmpty)

/-! ## Classes -/

def fieldDefault (f : FieldDef) : String :=
  let wire := "alias=" ++ stringLiteral f.wire
  match f.fallback with
  | .required | .builder _ _ => s!"Field({wire})"
  | .absent => s!"Field(default=None, {wire})"
  | .zero value => s!"Field(default_factory={value.factory}, {wire})"

def fieldLine (f : FieldDef) : String := s!"    {f.attr}: {f.fieldType.text} = {fieldDefault f}"

def namedSet (name : String) (items : List String) : List String :=
  if items.isEmpty then [] else [s!"    {name} = {setLiteral items}"]

def classAttributes (c : ClassDef) : List String :=
  namedSet "__omit_if_absent__" c.omitted ++
    (match c.errorAttr with
      | some attr => ["    __error_field__ = " ++ stringLiteral attr]
      | none => []) ++
    namedSet "__unit_variants__" c.units ++
    namedSet "__payload_required__" c.payloadRequired

/-- A blank line before lines that are there. -/
def section_ (lines : List String) : List String :=
  if lines.isEmpty then [] else "" :: lines

def builderLines (className : String) (f : FieldDef) : List String :=
  ["",
   s!"    def with_{f.attr}(self, value: {f.fieldType.text}) -> {className}:",
   "        \"\"\"Return a copy with " ++ Docs.code f.attr ++ " replaced.\"\"\"",
   "        return self.model_copy(update=" ++ braces (stringLiteral f.attr ++ ": value") ++ ")"]

def classLines (c : ClassDef) : List String :=
  ["", "", s!"class {c.name}({c.base.name}):", "    " ++ Docs.literal 4 c.doc] ++
    section_ (classAttributes c) ++
    section_ (c.fields.map fieldLine) ++
    if c.builder then c.fields.flatMap (builderLines c.name) else []

/-! ## Functions -/

def paramList (params : List Param) : String :=
  String.intercalate ", " (params.map fun p => s!"{argumentName p.role}: {p.className}")

def signature : Body → String × String
  | .uri params _ _ _ => (paramList params, "str")
  | .request params _ _ _ _ _ => (paramList params, "runtime.PreparedRequest")
  | .response className => ("payload: runtime.Payload", className)
  | .headers className => ("headers: runtime.Headers", className)

def pathValueText (v : PathValue) : String :=
  stringLiteral v.parameter ++ ": " ++ argumentName v.role ++ "." ++ v.attr

def substitution (template : String) (values : List PathValue) : String :=
  "runtime.substitute_path(" ++ stringLiteral template ++ ", " ++
    braces (String.intercalate ", " (values.map pathValueText)) ++ ")"

def bodyLines : Body → List String
  | .uri _ template values none => ["return " ++ substitution template values]
  | .uri _ template values (some excluded) =>
    ["path = " ++ substitution template values,
     "return runtime.append_query(path, query.encode()" ++
       (if excluded.isEmpty then ")" else ", exclude=" ++ tupleLiteral excluded ++ ")")]
  | .request _ verb uriFunction uriRoles hasHeader body =>
    ["return runtime.PreparedRequest(",
     "    method=" ++ stringLiteral verb.name ++ ",",
     "    uri=" ++ uriFunction ++ "(" ++ String.intercalate ", " (uriRoles.map argumentName) ++ "),",
     "    headers=" ++ (if hasHeader then "header.encode_headers()" else "\x7b\x7d") ++ ",",
     "    body=" ++ (match body with
        | some role => argumentName role ++ ".encode()"
        | none => "None") ++ ",",
     ")"]
  | .response className => [s!"return {className}.decode(payload)"]
  | .headers className => [s!"return {className}.decode_headers(headers)"]

def functionLines (f : FunctionDef) : List String :=
  let (params, returns) := signature f.body
  ["", "", s!"def {f.name}({params}) -> {returns}:", "    " ++ Docs.literal 4 f.doc] ++
    (bodyLines f.body).map ("    " ++ ·)

/-! ## Files -/

def exportLines (m : Module) : List String :=
  if m.exports.isEmpty then []
  else ["", "__all__ = ["] ++ m.exports.map (fun n => "    " ++ stringLiteral n ++ ",") ++ ["]"]

def rebuildLines (m : Module) : List String :=
  if m.classes.isEmpty then []
  else ["", ""] ++ m.classes.map (fun c => c.name ++ ".model_rebuild()")

def moduleText (m : Module) : String :=
  block ([Docs.literal 0 m.doc, s!"# Generated by restify from {m.unit}. Do not edit.", "",
      "from __future__ import annotations"] ++
    (importGroups m).flatMap ("" :: ·) ++
    exportLines m ++
    m.classes.flatMap classLines ++
    m.functions.flatMap functionLines ++
    rebuildLines m)

/-- Module names that start with an underscore are private. -/
def isPublicName (name : String) : Bool := name.toList.head? != some '_'

/-- The file that makes a package of modules with the given names. -/
def packageText (names : List String) : String :=
  block (["\"\"\"Endpoint modules generated by restify.\"\"\"",
      "# Generated by restify. Do not edit."] ++
    section_ (names.map ("from . import " ++ ·)) ++
    ["", "__all__ = ["] ++
    (names.filter isPublicName).map (fun n => "    " ++ stringLiteral n ++ ",") ++
    ["]"])

end Layout
end Client
end EndpointDsl
