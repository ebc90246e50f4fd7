import EndpointDsl.Client.Layout
import EndpointDsl.Text.Lines

/-!
Loading a generated module, after which its classes and functions can be used.

The text of a module may fail to be a program, because the name of its unit stands in a comment as
it is, or because a type is nested too deep.  A class may fail to be made, because a field hides a
class that the fields refer to, or because a wire name has a character that its literal spells as
two surrogates.
-/

namespace EndpointDsl
namespace Wire

open Client (ClassDef FieldDef FieldType Module)

inductive LoadFault
  | nullCharacter
  | statementInHeader
  /-- A statement in the header that does not start its line. -/
  | indentedStatement
  /-- More brackets are open at once than a program may have. -/
  | nestedBrackets
  | hiddenClass
  /-- A wire name with a surrogate in the place of a character. -/
  | surrogateWire
  deriving DecidableEq, Repr, Inhabited

def LoadFault.message? : LoadFault → Option String
  | nullCharacter => some "source code string cannot contain null bytes"
  | _ => none

/-! ## The header -/

def isIndent (c : Char) : Bool := c == ' ' || c == '\t' || c == '\x0c'

def isComment (line : List Char) : Bool := (line.dropWhile isIndent).head? = some '#'

def isBlankLine (line : List Char) : Bool := line.all isIndent

/-- The fault of a header whose comment ends with the first of these lines.  Text follows the last
of them, so it must be a comment too. -/
def headerFault? : List (List Char) → Option LoadFault
  | [] => none
  | line :: rest =>
    if isComment line || (isBlankLine line && !rest.isEmpty) then headerFault? rest
    else if (line.head?.map isIndent).getD false then some .indentedStatement
    else some .statementInHeader

/-! ## Fields -/

/-- Whether a field of a class has the name of another class that the fields refer to. -/
def hidesClass (c : ClassDef) : Bool :=
  c.fields.any fun f =>
    match f.fieldType.className? with
    | some name => name != c.name && c.fields.any (·.attr == name)
    | none => false

/-- The field whose builder method has the name of a field. -/
def hiddenBy? (c : ClassDef) (f : FieldDef) : Option FieldDef :=
  if c.builder then c.fields.find? fun g => f.attr == "with_" ++ g.attr else none

/-- A field whose name is that of a builder method loses its wire name, and while it is not given
the method is its value. -/
def settledField (c : ClassDef) (f : FieldDef) : FieldDef :=
  match hiddenBy? c f with
  | some g => { f with wire := f.attr, fallback := .builder c.name g.attr }
  | none => f

def settledClass (c : ClassDef) : ClassDef := { c with fields := c.fields.map (settledField c) }

/-- The module with its classes as they are made. -/
def settled (m : Module) : Module := { m with classes := m.classes.map settledClass }

/-! ## What the text of a class asks for -/

/-- How many brackets the text of a type opens at once. -/
def brackets : FieldType → Nat
  | .list item => brackets item + 1
  | .optional inner => brackets inner + 1
  | _ => 0

/-- How many brackets may be open at once. -/
def bracketLimit : Nat := 200

/-- Whether the types in the body of a class are nested too deep.  In the signature of a builder
method they stand in one more bracket. -/
def nestsTooDeep (c : ClassDef) : Bool :=
  c.fields.any fun f => decide (bracketLimit < brackets f.fieldType + if c.builder then 1 else 0)

/-- Whether a character is spelled in its literal as two surrogates. -/
def isAstral (c : Char) : Bool := decide (0xffff < c.toNat)

/-- Whether the wire name of a field, as the class keeps it, is no text. -/
def hasSurrogates (c : ClassDef) : Bool :=
  (settledClass c).fields.any fun f => f.wire.toList.any isAstral

/-- The module as it is when it has been loaded. -/
def load (m : Module) : Except LoadFault Module :=
  if (Client.Layout.moduleText m).toList.contains '\x00' then .error .nullCharacter
  else
    match headerFault? ((Text.withPlainNewlines m.unit).toList.splitOn '\n').tail with
    | some fault => .error fault
    | none =>
      if m.classes.any nestsTooDeep then .error .nestedBrackets
      else if m.classes.any hidesClass then .error .hiddenClass
      else if m.classes.any hasSurrogates then .error .surrogateWire
      else .ok (settled m)

end Wire
end EndpointDsl
