import EndpointDsl.Source.Lexer
import EndpointDsl.Tree.Basic

/-!
From tokens to the tree.

Each rule of the grammar reads from the front of a token list and hands on a shorter rest.  Every
rule takes the place where the text ends, to report there what is missing at the end.

An error abandons the endpoint block in which it arises.  The scan for the end of a broken block
counts brackets and is blind to their kind, so one run reports a problem of every block.
-/

namespace EndpointDsl
namespace Tree
namespace Parser

/-! ## Single tokens -/

def here (stop : Location) : List Token → Location
  | [] => stop
  | t :: _ => t.location

def unexpected (stop : Location) (wanted : Wanted) (ts : List Token) : SyntaxError :=
  ⟨.expected wanted (ts.head?.map (·.lexeme)), here stop ts⟩

def ident (stop : Location) (wanted : Wanted) (ts : List Token) :
    Except SyntaxError (Reading ts (Located String)) :=
  match ts with
  | ⟨.ident name, place⟩ :: rest => .ok ⟨⟨name, place⟩, rest, by simp⟩
  | ts => .error (unexpected stop wanted ts)

def literal (stop : Location) (wanted : Wanted) (ts : List Token) :
    Except SyntaxError (Reading ts (Located String)) :=
  match ts with
  | ⟨.literal value, place⟩ :: rest => .ok ⟨⟨value, place⟩, rest, by simp⟩
  | ts => .error (unexpected stop wanted ts)

def punct (stop : Location) (mark : Punct) (wanted : Wanted) (ts : List Token) :
    Except SyntaxError (Reading ts Location) :=
  match ts with
  | ⟨.punct found, place⟩ :: rest =>
    if found = mark then .ok ⟨place, rest, by simp⟩
    else .error (unexpected stop wanted (⟨.punct found, place⟩ :: rest))
  | ts => .error (unexpected stop wanted ts)

/-- Drops a mark from the front, if it is there. -/
def skip (mark : Punct) : List Token → List Token
  | ⟨.punct found, place⟩ :: rest => if found = mark then rest else ⟨.punct found, place⟩ :: rest
  | ts => ts

theorem length_skip_le (mark : Punct) (ts : List Token) : (skip mark ts).length ≤ ts.length := by
  unfold skip
  split
  · split <;> simp
  · exact Nat.le_refl _

/-! ## Attributes -/

def attributeItem (stop : Location) (ts : List Token) :
    Except SyntaxError (Reading ts AttributeItem) :=
  match ts with
  | ⟨.literal value, place⟩ :: rest => .ok ⟨⟨.literal value, place⟩, rest, by simp⟩
  | ⟨.ident key, place⟩ :: ⟨.punct .equals, _⟩ :: rest => do
    let value ← literal stop (.attributeValue key) rest
    return ⟨⟨.setting key value.value.cause, place⟩, value.rest, by
      have := value.shorter; simp only [List.length_cons]; omega⟩
  | ⟨.ident key, place⟩ :: rest => .ok ⟨⟨.flag key, place⟩, rest, by simp⟩
  | ts => .error (unexpected stop .attributeItem ts)

/-- The items of an attribute and its closing bracket. -/
def attributeItems (stop : Location) (ts : List Token) :
    Except SyntaxError (Reading ts (List AttributeItem)) :=
  match ts with
  | ⟨.punct .rightBracket, _⟩ :: rest => .ok ⟨[], rest, by simp⟩
  | ts => do
    let item ← attributeItem stop ts
    have hitem := item.shorter
    match h : item.rest with
    | ⟨.punct .comma, _⟩ :: more =>
      have hmore : more.length < ts.length := by simp only [h, List.length_cons] at hitem; omega
      let others ← attributeItems stop more
      return ⟨item.value :: others.value, others.rest, by have := others.shorter; omega⟩
    | _ =>
      let closing ← punct stop .rightBracket .attributeClosing item.rest
      return ⟨[item.value], closing.rest, by have := closing.shorter; omega⟩
termination_by ts.length

def bracketed (stop : Location) (ts : List Token) : Except SyntaxError (Reading ts Attribute) := do
  let opening ← punct stop .leftBracket .attributeItem ts
  let items ← attributeItems stop opening.rest
  if items.value.isEmpty then throw ⟨.emptyAttribute, opening.value⟩
  return ⟨⟨items.value, opening.value⟩, items.rest, by
    have := opening.shorter; have := items.shorter; omega⟩

def attributes (stop : Location) (ts : List Token) :
    Except SyntaxError (OptionalReading ts (List Attribute)) :=
  match ts with
  | ⟨.punct .leftBracket, place⟩ :: more => do
    let first ← bracketed stop (⟨.punct .leftBracket, place⟩ :: more)
    let others ← attributes stop first.rest
    return ⟨first.value :: others.value, others.rest, by
      have := first.shorter; have := others.notLonger; omega⟩
  | ts => .ok ⟨[], ts, Nat.le_refl _⟩
termination_by ts.length
decreasing_by exact first.shorter

/-! ## Type expressions -/

mutual

def typeExpr (stop : Location) (ts : List Token) : Except SyntaxError (Reading ts TypeExpr) :=
  match ts with
  | ⟨.punct .question, place⟩ :: rest => do
    let inner ← namedType stop place true rest
    return inner.widen (by simp)
  | ts => namedType stop (here stop ts) false ts
termination_by (ts.length, 1)

/-- A type name with its arguments, if it has any. -/
def namedType (stop start : Location) (optional : Bool) (ts : List Token) :
    Except SyntaxError (Reading ts TypeExpr) := do
  let name ← ident stop .typeName ts
  have hname := name.shorter
  match h : name.rest with
  | ⟨.punct .leftAngle, _⟩ :: ⟨.punct .rightAngle, place⟩ :: _ =>
    throw ⟨.emptyArguments name.value.cause, place⟩
  | ⟨.punct .leftAngle, _⟩ :: inside =>
    have hinside : inside.length < ts.length := by simp only [h, List.length_cons] at hname; omega
    let args ← typeArgs stop inside
    return ⟨⟨name.value.cause, optional, args.value, start⟩, args.rest, by
      have := args.shorter; omega⟩
  | _ => return ⟨⟨name.value.cause, optional, [], start⟩, name.rest, name.shorter⟩
termination_by (ts.length, 0)

/-- One or more type arguments and the closing angle bracket. -/
def typeArgs (stop : Location) (ts : List Token) :
    Except SyntaxError (Reading ts (List TypeExpr)) := do
  let first ← typeExpr stop ts
  have hfirst := first.shorter
  match h : first.rest with
  | ⟨.punct .comma, _⟩ :: more =>
    have hmore : more.length < ts.length := by simp only [h, List.length_cons] at hfirst; omega
    let others ← typeArgs stop more
    return ⟨first.value :: others.value, others.rest, by have := others.shorter; omega⟩
  | _ =>
    let closing ← punct stop .rightAngle .argumentsClosing first.rest
    return ⟨[first.value], closing.rest, by have := closing.shorter; omega⟩
termination_by (ts.length, 2)

end

/-! ## Blocks -/

/-- Whether a comma may follow each member of a block. -/
inductive Separator
  | nothing
  | optionalComma
  deriving DecidableEq, Repr

def Separator.skip : Separator → List Token → List Token
  | .nothing, ts => ts
  | .optionalComma, ts => Parser.skip .comma ts

theorem Separator.length_skip_le (separator : Separator) (ts : List Token) :
    (separator.skip ts).length ≤ ts.length := by
  cases separator
  · exact Nat.le_refl _
  · exact Parser.length_skip_le .comma ts

/-- Members up to the closing brace.  `unclosed` is reported when the text ends before it. -/
def members {α : Type} (rule : (ts : List Token) → Except SyntaxError (Reading ts α))
    (separator : Separator) (unclosed : SyntaxError) (ts : List Token) :
    Except SyntaxError (Reading ts (List α)) :=
  match ts with
  | [] => .error unclosed
  | ⟨.punct .rightBrace, _⟩ :: rest => .ok ⟨[], rest, by simp⟩
  | t :: more => do
    let first ← rule (t :: more)
    have hfirst := first.shorter
    have hskip := separator.length_skip_le first.rest
    have : (separator.skip first.rest).length < more.length + 1 := by
      simp only [List.length_cons] at hfirst; omega
    let others ← members rule separator unclosed (separator.skip first.rest)
    return ⟨first.value :: others.value, others.rest, by have := others.shorter; omega⟩
termination_by ts.length

def field (stop : Location) (ts : List Token) : Except SyntaxError (Reading ts Field) := do
  let attrs ← attributes stop ts
  let name ← ident stop .fieldName attrs.rest
  let colon ← punct stop .colon (.colonAfterField name.value.cause) name.rest
  let type ← typeExpr stop colon.rest
  return ⟨⟨name.value.cause, type.value, attrs.value, name.value.location⟩, type.rest, by
    have := attrs.notLonger; have := name.shorter; have := colon.shorter; have := type.shorter
    omega⟩

def fields (stop : Location) (owner : String) (ts : List Token) :
    Except SyntaxError (Reading ts (List Field)) := do
  let opening ← punct stop .leftBrace (.body owner) ts
  let inside ← members (field stop) .optionalComma ⟨.unterminatedBody owner, opening.value⟩
    opening.rest
  return inside.widen (Nat.le_of_lt opening.shorter)

/-- The payload of a variant, between parentheses. -/
def payload (stop : Location) (variant : String) (ts : List Token) :
    Except SyntaxError (OptionalReading ts (Option TypeExpr)) :=
  match ts with
  | ⟨.punct .leftParen, _⟩ :: rest => do
    let type ← typeExpr stop rest
    let closing ← punct stop .rightParen .payloadClosing type.rest
    return ⟨some type.value, closing.rest, by
      have := type.shorter; have := closing.shorter; simp only [List.length_cons]; omega⟩
  | ⟨.punct .leftBrace, place⟩ :: _ => .error ⟨.structLikeVariant variant, place⟩
  | ts => .ok ⟨none, ts, Nat.le_refl _⟩

def variant (stop : Location) (ts : List Token) : Except SyntaxError (Reading ts Variant) := do
  let attrs ← attributes stop ts
  let name ← ident stop .variantName attrs.rest
  let type ← payload stop name.value.cause name.rest
  return ⟨⟨name.value.cause, type.value, attrs.value, name.value.location⟩, type.rest, by
    have := attrs.notLonger; have := name.shorter; have := type.notLonger; omega⟩

/-! ## Items -/

/-- A role between angle brackets after the name of a structure. -/
def roleTag (stop : Location) (ts : List Token) :
    Except SyntaxError (OptionalReading ts (Option Role)) :=
  match ts with
  | ⟨.punct .leftAngle, _⟩ :: rest => do
    let word ← ident stop .role rest
    match Role.ofName? word.value.cause with
    | none => throw ⟨.unknownRole word.value.cause, word.value.location⟩
    | some role =>
      let closing ← punct stop .rightAngle .roleClosing word.rest
      return ⟨some role, closing.rest, by
        have := word.shorter; have := closing.shorter; simp only [List.length_cons]; omega⟩
  | ts => .ok ⟨none, ts, Nat.le_refl _⟩

/-- A structure headed by its role, which is also its name. -/
def roleStruct (stop : Location) (attrs : List Attribute) (role : Role) (head : Location)
    (ts : List Token) : Except SyntaxError (Reading ts Item) := do
  let inside ← fields stop role.name (skip .colon ts)
  return ⟨.struct ⟨role.name, some role, inside.value, attrs, head⟩, inside.rest,
    Nat.lt_of_lt_of_le inside.shorter (length_skip_le .colon ts)⟩

def namedStruct (stop : Location) (attrs : List Attribute) (head : Location) (ts : List Token) :
    Except SyntaxError (Reading ts Item) := do
  let name ← ident stop .structName ts
  let role ← roleTag stop name.rest
  let inside ← fields stop name.value.cause role.rest
  return ⟨.struct ⟨name.value.cause, role.value, inside.value, attrs, head⟩, inside.rest, by
    have := name.shorter; have := role.notLonger; have := inside.shorter; omega⟩

def enumeration (stop : Location) (attrs : List Attribute) (head : Location) (ts : List Token) :
    Except SyntaxError (Reading ts Item) := do
  let name ← ident stop .enumName ts
  let opening ← punct stop .leftBrace (.enumBody name.value.cause) name.rest
  let inside ← members (variant stop) .optionalComma
    ⟨.unterminatedEnum name.value.cause, opening.value⟩ opening.rest
  return ⟨.enum ⟨name.value.cause, inside.value, attrs, head⟩, inside.rest, by
    have := name.shorter; have := opening.shorter; have := inside.shorter; omega⟩

/-- What follows the head word of an item. -/
def itemBody (stop : Location) (attrs : List Attribute) (head : Located String)
    (ts : List Token) : Except SyntaxError (Reading ts Item) :=
  match Role.ofName? head.cause with
  | some role => roleStruct stop attrs role head.location ts
  | none =>
    if head.cause = "struct" then namedStruct stop attrs head.location ts
    else if head.cause = "enum" then enumeration stop attrs head.location ts
    else .error ⟨.unknownRole head.cause, head.location⟩

def item (stop : Location) (ts : List Token) : Except SyntaxError (Reading ts Item) := do
  let attrs ← attributes stop ts
  let head ← ident stop .itemHead attrs.rest
  let body ← itemBody stop attrs.value head.value head.rest
  return ⟨body.value, body.rest, by
    have := attrs.notLonger; have := head.shorter; have := body.shorter; omega⟩

/-! ## Methods and endpoints -/

def verb (stop : Location) (ts : List Token) :
    Except SyntaxError (Reading ts (Located Verb)) := do
  let word ← ident stop .verb ts
  match Verb.ofName? word.value.cause with
  | none => throw ⟨.unknownVerb word.value.cause, word.value.location⟩
  | some v => return word.map fun w => ⟨v, w.location⟩

def path (stop : Location) (ts : List Token) :
    Except SyntaxError (Reading ts (Located PathTemplate)) := do
  let raw ← literal stop .path ts
  match PathTemplate.parse raw.value.cause with
  | .error fault => throw ⟨.malformedPath raw.value.cause fault, raw.value.location⟩
  | .ok template => return raw.map fun r => ⟨template, r.location⟩

def method (stop : Location) (ts : List Token) : Except SyntaxError (Reading ts Method) := do
  let v ← verb stop ts
  let p ← path stop v.rest
  let arrow ← punct stop .arrow .arrow p.rest
  let opening ← punct stop .leftBrace .methodBody arrow.rest
  let items ← members (item stop) .nothing
    ⟨.unterminatedMethod v.value.cause p.value.cause.raw, opening.value⟩ opening.rest
  return ⟨⟨v.value.cause, p.value.cause, p.value.location, items.value, v.value.location⟩,
    items.rest, by
      have := v.shorter; have := p.shorter; have := arrow.shorter; have := opening.shorter
      have := items.shorter; omega⟩

/-- The word `pub` marks a public endpoint only when a name follows it; alone it is the name. -/
def visibility (ts : List Token) : OptionalReading ts Bool :=
  match ts with
  | ⟨.ident word, wordPlace⟩ :: ⟨.ident name, place⟩ :: rest =>
    if word = "pub" then ⟨true, ⟨.ident name, place⟩ :: rest, by simp⟩
    else ⟨false, ⟨.ident word, wordPlace⟩ :: ⟨.ident name, place⟩ :: rest, Nat.le_refl _⟩
  | ts => ⟨false, ts, Nat.le_refl _⟩

def endpoint (stop : Location) (ts : List Token) : Except SyntaxError (Reading ts Endpoint) := do
  let opening ← punct stop .leftBracket .endpointOpening ts
  let isPublic := visibility opening.rest
  let name ← ident stop .endpointName isPublic.rest
  let colon ← punct stop .colon (.colonAfterEndpoint name.value.cause) name.rest
  let brace ← punct stop .leftBrace .endpointBody colon.rest
  let methods ← members (method stop) .nothing
    ⟨.unterminatedEndpoint name.value.cause, opening.value⟩ brace.rest
  let closing ← punct stop .rightBracket (.endpointClosing name.value.cause) methods.rest
  return ⟨⟨name.value.cause, isPublic.value, methods.value, opening.value⟩, closing.rest, by
    have := opening.shorter; have := isPublic.notLonger; have := name.shorter
    have := colon.shorter; have := brace.shorter; have := methods.shorter
    have := closing.shorter; omega⟩

/-! ## Recovery -/

/-- The tokens after a broken block that still has `depth` open brackets.  The block ends with
the token that closes the last of them.  With none open, an opening bracket starts the next
block and is kept. -/
def afterBlock (depth : Nat) : List Token → List Token
  | [] => []
  | t :: rest =>
    if t.lexeme.isOpener then
      if depth = 0 then t :: rest else afterBlock (depth + 1) rest
    else if t.lexeme.isCloser then
      if depth = 1 then rest else afterBlock (depth - 1) rest
    else afterBlock depth rest

/-- The tokens after the broken block at the front of a list. -/
def recover : List Token → List Token
  | [] => []
  | t :: rest => afterBlock (if t.lexeme.isOpener then 1 else 0) rest

theorem length_afterBlock_le (depth : Nat) (ts : List Token) :
    (afterBlock depth ts).length ≤ ts.length := by
  induction ts generalizing depth with
  | nil => simp [afterBlock]
  | cons t rest ih =>
    have h₁ := ih (depth + 1)
    have h₂ := ih (depth - 1)
    have h₃ := ih depth
    unfold afterBlock
    split <;> split <;> simp only [List.length_cons] <;> first | omega | split <;> omega

theorem length_recover_lt (t : Token) (rest : List Token) :
    (recover (t :: rest)).length < (t :: rest).length := by
  have := length_afterBlock_le (if t.lexeme.isOpener then 1 else 0) rest
  simp only [recover, List.length_cons]; omega

/-- The outcome of each block in turn.  One comma may stand between two blocks and after the
last; `commaAllowed` holds once a block has been read. -/
def blocks (stop : Location) (commaAllowed : Bool) (ts : List Token) :
    List (Except SyntaxError Endpoint) :=
  match h : (if commaAllowed then skip .comma ts else ts) with
  | [] => []
  | t :: rest =>
    have hlen : (t :: rest).length ≤ ts.length := by
      rw [← h]; split
      · exact length_skip_le .comma ts
      · exact Nat.le_refl _
    match endpoint stop (t :: rest) with
    | .ok r =>
      have := r.shorter
      .ok r.value :: blocks stop true r.rest
    | .error e =>
      have := length_recover_lt t rest
      .error e :: blocks stop true (recover (t :: rest))
termination_by ts.length

end Parser

/-- A tree of the blocks without errors, and the errors of the other blocks in source order. -/
structure Parsed where
  source : Source
  errors : List SyntaxError

def okValue? {ε α : Type} : Except ε α → Option α
  | .ok a => some a
  | .error _ => none

def errorValue? {ε α : Type} : Except ε α → Option ε
  | .ok _ => none
  | .error e => some e

def ofTokens (unit : String) (list : TokenList) : Parsed :=
  let outcomes := Parser.blocks list.stop false list.tokens
  { source := { unit, endpoints := outcomes.filterMap okValue? }
    errors := outcomes.filterMap errorValue? }

/-- A text that does not split into tokens has no blocks at all. -/
def parse (text unit : String) : Parsed :=
  match Lexer.tokenize text unit with
  | .error e => { source := { unit, endpoints := [] }, errors := [e] }
  | .ok list => ofTokens unit list

end Tree
end EndpointDsl
