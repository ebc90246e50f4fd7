import EndpointDsl.Wire.Decode
import EndpointDsl.Wire.Encode
import EndpointDsl.Wire.Shown

/-!
Using a generated module: making instances, calling its functions, and asking instances for their
encoded forms and attributes.
-/

namespace EndpointDsl
namespace Wire

open Client (Base Body ClassDef FunctionDef Module Param PathValue)

/-- Why a use of a module fails. -/
inductive Refusal
  | invalid (details : List Detail)
  | missingParameter (name : String)
  /-- There is no class, function, method or attribute of that name. -/
  | noSuchMember
  | wrongArguments
  /-- A value that has no text of its own stands in a path. -/
  | noPathText
  /-- A whole number that is to be written has too many digits. -/
  | numeralTooLong
  | unencodable (fault : EncodeFault)
  /-- There is no encoded form, and so no text of it. -/
  | unwritable (fault : EncodeFault)
  /-- Octets that are no text are asked for their text. -/
  | undecodable
  deriving DecidableEq, Repr, Inhabited

def numeralTooLongMessage : String :=
  s!"Exceeds the limit ({numeralLimit} digits) for integer string conversion; " ++
    "use sys.set_int_max_str_digits() to increase the limit"

abbrev Use := Except Refusal

/-- All that is needed to perform a call, apart from the transport. -/
structure Request where
  method : String
  uri : String
  headers : List (String × String)
  /-- The body; null if there is none. -/
  body : Json
  deriving Repr, Inhabited

/-- What is there if its numbers can be written. -/
def written {α : Type} : Option α → Use α
  | some a => .ok a
  | none => .error .numeralTooLong

/-- The text of the body, if there is one. -/
def Request.bodyText (r : Request) : Use (Option String) :=
  match r.body with
  | .null => .ok none
  | j => if isWritableJson j then .ok (some (Json.compact .ascii j)) else .error .numeralTooLong

/-- What a use of a module gives. -/
inductive Held
  | value (v : Value)
  | request (r : Request)
  deriving Repr, Inhabited

def checked : Checked Value → Use Value
  | .ok v => .ok v
  | .error details => .error (.invalid details)

def member {α : Type} : Option α → Use α
  | some a => .ok a
  | none => .error .noSuchMember

/-! ## Instances -/

def construct (m : Module) (className : String) (args : List (String × Value)) : Use Value := do
  let c ← member (m.class? className)
  checked (checkAs (.program m) c (.object args))

/-- The class of a name, if it can be decoded. -/
def decodable (m : Module) (className : String) : Use ClassDef := do
  let c ← member (m.class? className)
  if c.base.canDecode then .ok c else .error .noSuchMember

def decodeAs (m : Module) (className : String) (payload : Value) : Use Value := do
  let c ← decodable m className
  checked (decode m c payload)

def decodeHeadersAs (m : Module) (className : String) (headers : List (String × Value)) :
    Use Value := do
  let c ← decodable m className
  checked (decodeHeaders m c headers)

/-- The class of an instance. -/
def classOf? (m : Module) : Value → Option ClassDef
  | .model name _ => m.class? name
  | .choice name _ _ => m.class? name
  | _ => none

/-- An attribute of an instance.  The variants that were not chosen are null. -/
def attribute? (m : Module) (v : Value) (attr : String) : Option Value :=
  match v with
  | .model _ attrs => lookup? attr attrs
  | .choice name chosen payload =>
    (m.class? name).bind fun c =>
      (c.field? attr).map fun _ => if attr = chosen then payload else .null
  | _ => none

/-! ## Encoded forms -/

def encoded (m : Module) (v : Value) : Use Json :=
  match encode m v with
  | .ok j => .ok j
  | .error fault => .error (.unencodable fault)

/-- The encoded form of an instance whose class has one. -/
def encodeInstance (m : Module) (v : Value) : Use Json := do
  let c ← member (classOf? m v)
  if c.base.canEncode then encoded m v else .error .noSuchMember

/-- The text of the encoded form of an instance. -/
def writeInstance (m : Module) (v : Value) : Use String :=
  match encodeInstance m v with
  | .ok j => .ok (Json.compact .raw j.withFiniteNumbers)
  | .error (.unencodable fault) => .error (.unwritable fault)
  | .error refusal => .error refusal

/-- The entries of an encoded form; a bare variant has none. -/
def entriesOf : Json → Use (List (String × Json))
  | .object entries => .ok entries
  | _ => .error .noSuchMember

def encodeHeaders (m : Module) (v : Value) : Use (List (String × String)) := do
  let entries ← entriesOf (← encodeInstance m v)
  written (headersOf? entries)

def queryString (m : Module) (v : Value) : Use String := do
  let c ← member (classOf? m v)
  if c.base = .queryEncodable then
    let entries ← entriesOf (← encodeInstance m v)
    written (encodeQuery? entries)
  else .error .noSuchMember

/-- The value of the field that signals a failure; null for a class without one. -/
def errorValue (m : Module) (v : Value) : Use Value := do
  let c ← member (classOf? m v)
  match c.errorAttr with
  | none => .ok .null
  | some attr => member (attribute? m v attr)

def replace (attr : String) (new : Value) : Value → Value
  | .model name attrs => .model name (put attr new attrs)
  | v => v

/-- The copy that a builder method makes.  The new value is not checked. -/
def rebuild (m : Module) (v : Value) (method : String) (args : List Value) : Use Value := do
  let c ← member (classOf? m v)
  let f ← member (c.fields.find? fun f => method == "with_" ++ f.attr)
  if !c.builder then throw .noSuchMember
  match args with
  | [new] => .ok (replace f.attr new v)
  | _ => .error .wrongArguments

def headersGiven : Value → Use (List (String × Value))
  | .object entries => .ok entries
  | _ => .error .noSuchMember

def textObject (entries : List (String × String)) : Value :=
  .object (entries.map fun e => (e.1, .text e.2))

/-- Calls the value of a field.  Only a builder method can be called, with an instance to copy and
the new value of the attribute. -/
def callValue : Value → List Value → Use Value
  | .builder _ attr, [v, new] =>
    match v with
    | .model _ _ => .ok (replace attr new v)
    | _ => .error .noSuchMember
  | _, _ => .error .wrongArguments

/-- A method of an instance, by name.  A field of that name hides it. -/
def invokeInstance (m : Module) (v : Value) (method : String) (args : List Value) : Use Value := do
  let c ← member (classOf? m v)
  if (c.field? method).isSome then callValue ((attribute? m v method).getD .null) args else
  match method, args with
  | "encode", [] => return .ofJson (← encodeInstance m v)
  | "to_json", [] => return .text (← writeInstance m v)
  | "encode_headers", [] => return textObject (← encodeHeaders m v)
  | "to_query_string", [] => return .text (← queryString m v)
  | "error_value", [] => errorValue m v
  | "is_error", [] => return .bool (← errorValue m v).isTruthy
  | "decode", [payload] => decodeAs m c.name payload
  | "decode_headers", [headers] => do
    let _ ← decodable m c.name
    decodeHeadersAs m c.name (← headersGiven headers)
  | "encode", _ | "to_json", _ | "encode_headers", _ =>
    if c.base.canEncode then .error .wrongArguments else .error .noSuchMember
  | "to_query_string", _ =>
    if c.base = .queryEncodable then .error .wrongArguments else .error .noSuchMember
  | "error_value", _ | "is_error", _ => .error .wrongArguments
  | "decode", _ | "decode_headers", _ =>
    if c.base.canDecode then .error .wrongArguments else .error .noSuchMember
  | _, _ => rebuild m v method args

/-- A method of a value, by name.  Of values that are no instances, texts have an encoded form, and
octets are the encoded form of a text. -/
def invoke (m : Module) (v : Value) (method : String) (args : List Value) : Use Value :=
  match v, method, args with
  | .text s, "encode", [] => .ok (.bytes (Text.utf8 s))
  | .bytes b, "decode", [] =>
    match Text.ofUtf8? b with
    | some s => .ok (.text s)
    | none => .error .undecodable
  | v, method, args => invokeInstance m v method args

/-- The chosen variant by wire name, its payload, or an attribute. -/
def read (m : Module) (v : Value) (name : String) : Use Value :=
  match v, name with
  | .choice className attr _, "variant" => do
    let c ← member (m.class? className)
    return .text (ClassDef.wire c attr)
  | .choice _ _ payload, "value" => .ok payload
  | v, name => member (attribute? m v name)

/-! ## Requests -/

namespace Request

/-- A part of a request, by name. -/
def part? (r : Request) (name : String) : Option Value :=
  match name with
  | "method" => some (.text r.method)
  | "uri" => some (.text r.uri)
  | "headers" => some (textObject r.headers)
  | "body" => some (.ofJson r.body)
  | _ => none

/-- The method of a request gives the text of its body.  A part cannot be called. -/
def invoke (r : Request) (method : String) (args : List Value) : Use Value :=
  match method, args with
  | "body_json", [] => r.bodyText.map fun text => (text.map Value.text).getD .null
  | "body_json", _ => .error .wrongArguments
  | method, _ => .error (if (r.part? method).isSome then .wrongArguments else .noSuchMember)

end Request

namespace Held

/-- An attribute of a value or a part of a request. -/
def read (m : Module) (name : String) : Held → Use Value
  | .value v => Wire.read m v name
  | .request r => member (r.part? name)

def invoke (m : Module) (method : String) (args : List Value) : Held → Use Value
  | .value v => Wire.invoke m v method args
  | .request r => r.invoke method args

end Held

/-! ## Functions -/

/-- Arguments by the role of the structure they hold. -/
def bindArgs : List Param → List Value → Use (List (Role × Value))
  | [], [] => .ok []
  | p :: params, v :: args => do return (p.role, v) :: (← bindArgs params args)
  | _, _ => .error .wrongArguments

def argument (args : List (Role × Value)) (role : Role) : Use Value :=
  match args.find? (·.1 == role) with
  | some a => .ok a.2
  | none => .error .wrongArguments

/-- The value of every path parameter, as it stands in the arguments. -/
def pathValues (m : Module) (args : List (Role × Value)) :
    List PathValue → Use (List (String × Value))
  | [] => .ok []
  | p :: rest => do
    let v ← member (attribute? m (← argument args p.role) p.attr)
    return (p.parameter, v) :: (← pathValues m args rest)

/-- The texts of the values that are not null. -/
def pathTexts (m : Module) : List (String × Value) → Use (List (String × String))
  | [] => .ok []
  | (_, .null) :: rest => pathTexts m rest
  | (name, v) :: rest =>
    match pathText? m v with
    | some text => do return (name, text) :: (← pathTexts m rest)
    | none => .error (if v.isWritable then .noPathText else .numeralTooLong)

def pathOf (template : String) (texts : List (String × String)) : Use String :=
  match substitutePath template (lookup? · texts) with
  | .ok path => .ok path
  | .error name => .error (.missingParameter name)

def uriOf (m : Module) (template : String) (values : List PathValue) (query : Option (List String))
    (args : List (Role × Value)) : Use String := do
  let texts ← pathTexts m (← pathValues m args values)
  let path ← pathOf template texts
  match query with
  | none => return path
  | some exclude =>
    let entries ← entriesOf (← encodeInstance m (← argument args .query))
    written (appendQuery? path entries exclude)

/-- The URI that a URI function gives for positional arguments. -/
def callUri (m : Module) (name : String) (args : List Value) : Use String := do
  let f ← member (m.function? name)
  match f.body with
  | .uri params template values query => do uriOf m template values query (← bindArgs params args)
  | _ => .error .noSuchMember

/-- The body of a request.  A text has an encoded form of its own, but one that is no document. -/
def bodyOf (m : Module) : Value → Use Json
  | .text _ => .error .wrongArguments
  | v => encodeInstance m v

def requestOf (m : Module) (verb : Verb) (uriFunction : String) (uriRoles : List Role)
    (hasHeader : Bool) (body : Option Role) (args : List (Role × Value)) : Use Request := do
  let uri ← callUri m uriFunction (← uriRoles.mapM (argument args))
  let headers ← if hasHeader then encodeHeaders m (← argument args .header) else pure []
  let body ← match body with
    | some role => bodyOf m (← argument args role)
    | none => pure .null
  return { method := verb.name, uri, headers, body }

/-- Calls a function of a module. -/
def call (m : Module) (name : String) (args : List Value) : Use Held := do
  let f ← member (m.function? name)
  match f.body, args with
  | .uri _ _ _ _, args => return .value (.text (← callUri m name args))
  | .request params verb uriFunction uriRoles hasHeader body, args => do
    return .request (← requestOf m verb uriFunction uriRoles hasHeader body (← bindArgs params args))
  | .response className, [payload] => return .value (← decodeAs m className payload)
  | .headers className, [headers] =>
    return .value (← decodeHeadersAs m className (← headersGiven headers))
  | _, _ => .error .wrongArguments

end Wire
end EndpointDsl
