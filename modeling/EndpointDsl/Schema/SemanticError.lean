import EndpointDsl.Schema.Basic
import EndpointDsl.Name.Casing
import EndpointDsl.Source.SyntaxError

/-!
Why a schema breaks a rule.  Methods appear in a cause as their verb and path, the way messages
quote them.
-/

namespace EndpointDsl
namespace Schema

/-- The declaration that an attribute stands on or that a member belongs to. -/
inductive Owner
  | struct (name : String)
  | enum (name : String)
  | field (name : String)
  | variant (name : String)
  deriving DecidableEq, Repr, Inhabited

def Owner.text : Owner → String
  | struct name => s!"struct '{name}'"
  | enum name => s!"enum '{name}'"
  | field name => s!"field '{name}'"
  | variant name => s!"variant '{name}'"

inductive SemanticCause
  | duplicateEndpoint (name : String)
  | moduleTaken (endpoint module other : String)
  | duplicateMethod (method endpoint : String)
  | identifierTaken (method identifier other : String)
  | classTaken (name : String)
  | duplicateItem (name method : String)
  | duplicateRole (method : String) (role : Role)
  | unknownType (name method endpoint : String)
  | bodyConflict (method : String) (first second : Role) (what : String)
  | repeatedParameter (name : String) (count : Nat) (path : String)
  | uncoveredParameter (name method : String)
  | ambiguousParameter (name method : String) (owners : List String)
  | optionalPathField (name : String)
  | compoundPathField (name : String)
  | misplacedDefault (owner : Owner)
  | misplacedMemberAttribute (label : String) (owner : Owner)
  | repeatedRenameAll (owner : Owner)
  | unknownStyle (style : String) (owner : Owner)
  | misplacedRenameAll (owner : Owner)
  | misplacedBuilder (owner : Owner)
  | repeatedRename (owner : Owner)
  | emptyRename (owner : Owner)
  | wireNameTaken (name other : String) (owner : Owner) (wire : String)
  | attributeTaken (name other : String) (owner : Owner) (attr : String)
  | duplicateField (name : String) (owner : Owner)
  | errorNeverDecoded (owner : Owner)
  | repeatedError (owner : Owner)
  | repeatedDefault (field : String)
  | defaultNeverDecoded (field : String) (owner : Owner)
  | noZeroValue (field type : String)
  | noVariants (owner : Owner)
  | duplicateVariant (name : String) (owner : Owner)
  | errorOnVariant (owner : Owner)
  deriving DecidableEq, Repr, Inhabited

def SemanticCause.message : SemanticCause → String
  | duplicateEndpoint name => s!"duplicate endpoint '{name}'"
  | moduleTaken endpoint module other =>
    s!"endpoint '{endpoint}' generates module '{module}', which endpoint '{other}' already uses"
  | duplicateMethod method endpoint => s!"duplicate method {method} in endpoint '{endpoint}'"
  | identifierTaken method identifier other =>
    s!"method {method} generates the identifier '{identifier}', which {other} already uses"
  | classTaken name => s!"generated class name '{name}' is not unique"
  | duplicateItem name method => s!"'{name}' is declared more than once in {method}"
  | duplicateRole method role => s!"{method} already has a {role.name} structure"
  | unknownType name method endpoint =>
    s!"unknown type '{name}': no struct or enum of that name in {method} or endpoint '{endpoint}'"
  | bodyConflict method first second what =>
    s!"{method} declares both {first.name} and {second.name}; " ++
      s!"only one structure may describe the {what}"
  | repeatedParameter name count path =>
    s!"path parameter '{name}' appears {count} times in \"{path}\""
  | uncoveredParameter name method =>
    s!"path parameter '{name}' of {method} is not provided by any Query, Request or ReqRes field"
  | ambiguousParameter name method owners =>
    s!"path parameter '{name}' of {method} is ambiguous; it matches fields of " ++
      String.intercalate ", " owners
  | optionalPathField name => s!"field '{name}' fills a path parameter and must not be optional"
  | compoundPathField name =>
    s!"field '{name}' fills a path parameter and must have a primitive type"
  | misplacedDefault owner => s!"'default' applies to struct fields, not to {owner.text}"
  | misplacedMemberAttribute label owner =>
    s!"'{label}' applies to fields and variants, not to {owner.text}"
  | repeatedRenameAll owner => s!"{owner.text} has more than one rename_all attribute"
  | unknownStyle style owner =>
    s!"unknown casing style '{style}' on {owner.text}; expected one of " ++
      String.intercalate ", " (Casing.Style.all.map Casing.Style.name)
  | misplacedRenameAll owner => s!"'rename_all' applies to types, not to {owner.text}"
  | misplacedBuilder owner => s!"'builder' applies to structs, not to {owner.text}"
  | repeatedRename owner => s!"{owner.text} has more than one rename attribute"
  | emptyRename owner => s!"rename of {owner.text} must not be empty"
  | wireNameTaken name other owner wire =>
    s!"'{name}' and '{other}' of {owner.text} both use the wire name '{wire}'"
  | attributeTaken name other owner attr =>
    s!"'{name}' and '{other}' of {owner.text} map to the same Python attribute '{attr}'"
  | duplicateField name owner => s!"duplicate field '{name}' in {owner.text}"
  | errorNeverDecoded owner =>
    s!"isError marker on {owner.text}, which is never decoded; " ++
      "it only applies to received structures"
  | repeatedError owner => s!"{owner.text} has more than one isError field"
  | repeatedDefault field => s!"field '{field}' has more than one default attribute"
  | defaultNeverDecoded field owner =>
    s!"'default' on field '{field}' of {owner.text}, which is never decoded; " ++
      "it only applies to received structures"
  | noZeroValue field type =>
    s!"field '{field}' cannot use 'default': type '{type}' has no zero value"
  | noVariants owner => s!"{owner.text} has no variants"
  | duplicateVariant name owner => s!"duplicate variant '{name}' in {owner.text}"
  | errorOnVariant owner => s!"isError marker is not allowed on {owner.text}"

abbrev SemanticError := Located SemanticCause

end Schema
end EndpointDsl
