import EndpointDsl.Config.PlainScalar

/-!
Settings written in a plain part of YAML: mappings and lists by indentation, lists and mappings in
brackets, quoted and plain scalars, and comments.  Tags, anchors and block scalars are refused.

A text is first read as nodes, and only then are its plain scalars given their values, so that a
text that breaks a rule anywhere is refused whatever its scalars are.  A tab may stand only in a
comment or a quoted scalar.
-/

namespace EndpointDsl
namespace Yaml

open Wire (Value)

/-- The name of an entry, and whether it stands without quotes. -/
structure Key where
  text : List Char
  isPlain : Bool
  deriving DecidableEq, Repr, Inhabited

inductive Node
  | plain (text : List Char)
  | quoted (text : List Char)
  | list (items : List Node)
  | mapping (pairs : List (Key × Node))
  deriving Repr, Inhabited

/-- A node with nothing in it. -/
def Node.empty : Node := .plain []

/-- A scalar as the name of an entry. -/
def Node.key? : Node → Option Key
  | .plain text => some ⟨text, true⟩
  | .quoted text => some ⟨text, false⟩
  | _ => none

/-! ## Quoted scalars -/

def singleQuoted (acc : List Char) : List Char → Option (List Char × List Char)
  | [] => none
  | '\'' :: '\'' :: rest => singleQuoted ('\'' :: acc) rest
  | '\'' :: rest => some (acc.reverse, rest)
  | c :: rest => singleQuoted (c :: acc) rest

def shortEscape? (c : Char) : Option Char :=
  match c with
  | '0' => some (Char.ofNat 0)
  | 'a' => some (Char.ofNat 7)
  | 'b' => some (Char.ofNat 8)
  | 't' | '\t' => some '\t'
  | 'n' => some '\n'
  | 'v' => some (Char.ofNat 11)
  | 'f' => some (Char.ofNat 12)
  | 'r' => some '\r'
  | 'e' => some (Char.ofNat 27)
  | ' ' | '"' | '\\' | '/' => some c
  | 'N' => some (Char.ofNat 0x85)
  | '_' => some (Char.ofNat 0xa0)
  | 'L' => some (Char.ofNat 0x2028)
  | 'P' => some (Char.ofNat 0x2029)
  | _ => none

def doubleQuoted (acc : List Char) : List Char → Option (List Char × List Char)
  | [] => none
  | '"' :: rest => some (acc.reverse, rest)
  | '\\' :: 'x' :: a :: b :: rest => do
    doubleQuoted (Char.ofNat (← Text.ofHex? [a, b]) :: acc) rest
  | '\\' :: 'u' :: a :: b :: c :: d :: rest => do
    doubleQuoted (Char.ofNat (← Text.ofHex? [a, b, c, d]) :: acc) rest
  | '\\' :: c :: rest => do doubleQuoted ((← shortEscape? c) :: acc) rest
  | c :: rest => doubleQuoted (c :: acc) rest

/-- A quoted scalar at the start of a text, and the rest. -/
def quoted? : List Char → Option (List Char × List Char)
  | '\'' :: rest => singleQuoted [] rest
  | '"' :: rest => doubleQuoted [] rest
  | _ => none

/-! ## Lists and mappings in brackets -/

def isSpace (c : Char) : Bool := c == ' ' || c == '\n'

/-- The characters that a colon or a dash is an indicator before. -/
def isBreak (c : Char) : Bool := isSpace c || c == '\t'

/-- Skips blanks and comments; `remark` says whether a comment is going on. -/
def skipFrom (remark : Bool) : List Char → List Char
  | [] => []
  | c :: rest =>
    if remark then skipFrom (c != '\n') rest
    else if c == '#' then skipFrom true rest
    else if isSpace c then skipFrom false rest
    else c :: rest

def skipBlank (cs : List Char) : List Char := skipFrom false cs

def isFlowMark (c : Char) : Bool := c == ',' || c == '[' || c == ']' || c == '{' || c == '}'

/-- A plain scalar inside brackets. -/
def flowPlain (acc : List Char) : List Char → List Char × List Char
  | [] => (acc.reverse, [])
  | ':' :: c :: rest =>
    if isBreak c || isFlowMark c then (acc.reverse, ':' :: c :: rest)
    else flowPlain (c :: ':' :: acc) rest
  | ' ' :: '#' :: rest => (acc.reverse, ' ' :: '#' :: rest)
  | '\n' :: '#' :: rest => (acc.reverse, '\n' :: '#' :: rest)
  | c :: rest =>
    if isFlowMark c || c == '?' || c == '\t' then (acc.reverse, c :: rest)
    else flowPlain ((if c = '\n' then ' ' else c) :: acc) rest

def trimRight (cs : List Char) : List Char := (cs.reverse.dropWhile isSpace).reverse

/-- Characters that no plain scalar starts with. -/
def isIndicator (c : Char) : Bool := ",[]{}#&*!|>'\"%@\x60".toList.contains c

def startsPlain : List Char → Bool
  | [] => false
  | c :: rest =>
    if c == '-' || c == '?' || c == ':' then (rest.head?.map (!isBreak ·)).getD false
    else !isIndicator c && !isBreak c

/-- A key inside brackets, and the rest. -/
def flowKey? (cs : List Char) : Option (Key × List Char) :=
  match quoted? cs with
  | some (text, rest) => some (⟨text, false⟩, rest)
  | none =>
    if startsPlain cs then
      let (word, rest) := flowPlain [] cs
      some (⟨trimRight word, true⟩, rest)
    else none

mutual

/-- A node inside brackets, and the rest. -/
def flowValue : Nat → List Char → Option (Node × List Char)
  | 0, _ => none
  | fuel + 1, cs =>
    match skipBlank cs with
    | '[' :: rest => (flowItems fuel rest).map fun r => (.list r.1, r.2)
    | '{' :: rest => (flowPairs fuel rest).map fun r => (.mapping r.1, r.2)
    | c :: rest =>
      if c = '\'' ∨ c = '"' then (quoted? (c :: rest)).map fun r => (.quoted r.1, r.2)
      else if startsPlain (c :: rest) then
        let (word, rest) := flowPlain [] (c :: rest)
        some (.plain (trimRight word), rest)
      else none
    | [] => none

def flowItems : Nat → List Char → Option (List Node × List Char)
  | 0, _ => none
  | fuel + 1, cs =>
    match skipBlank cs with
    | ']' :: rest => some ([], rest)
    | cs => do
      let (item, rest) ← flowValue fuel cs
      let (item, rest) ← match item.key?, skipBlank rest with
        | some key, ':' :: rest =>
          (flowPart fuel rest).map fun r => (Node.mapping [(key, r.1)], r.2)
        | _, rest => some (item, rest)
      match skipBlank rest with
      | ',' :: rest => (flowItems fuel rest).map fun r => (item :: r.1, r.2)
      | ']' :: rest => some ([item], rest)
      | _ => none

/-- What follows a colon inside brackets; it may be nothing. -/
def flowPart : Nat → List Char → Option (Node × List Char)
  | 0, _ => none
  | fuel + 1, cs =>
    match skipBlank cs with
    | ',' :: rest => some (.empty, ',' :: rest)
    | ']' :: rest => some (.empty, ']' :: rest)
    | '}' :: rest => some (.empty, '}' :: rest)
    | rest => flowValue fuel rest

def flowPairs : Nat → List Char → Option (List (Key × Node) × List Char)
  | 0, _ => none
  | fuel + 1, cs =>
    match skipBlank cs with
    | '}' :: rest => some ([], rest)
    | cs => do
      let (key, rest) ← flowKey? cs
      let (value, rest) ← match skipBlank rest with
        | ':' :: rest => flowPart fuel rest
        | rest => some (Node.empty, rest)
      match skipBlank rest with
      | ',' :: rest => (flowPairs fuel rest).map fun r => ((key, value) :: r.1, r.2)
      | '}' :: rest => some ([(key, value)], rest)
      | _ => none

end

/-! ## Blocks by indentation -/

/-- A line without its indentation. -/
structure Line where
  indent : Nat
  text : List Char
  deriving Repr

def lineOf (cs : List Char) : Line :=
  ⟨(cs.takeWhile (· == ' ')).length, trimRight (cs.dropWhile (· == ' '))⟩

def Line.isEmpty (l : Line) : Bool := l.text.isEmpty || l.text.head? == some '#'

def dropEmpty (lines : List Line) : List Line := lines.dropWhile Line.isEmpty

/-- Whether nothing but a comment follows. -/
def isRemark (cs : List Char) : Bool :=
  let rest := cs.dropWhile isSpace
  rest.isEmpty || rest.head? == some '#'

/-- A plain scalar without the comment after it. -/
def withoutRemark : List Char → List Char
  | [] => []
  | ' ' :: '#' :: _ => []
  | c :: rest => c :: withoutRemark rest

/-- The text before a colon that ends a key, and the text after it. -/
def splitKey (acc : List Char) : List Char → Option (List Char × List Char)
  | [] => none
  | [':'] => some (acc.reverse, [])
  | ':' :: c :: rest =>
    if isBreak c then some (acc.reverse, c :: rest) else splitKey (':' :: acc) (c :: rest)
  | ' ' :: '#' :: _ => none
  | c :: rest => splitKey (c :: acc) rest

/-- The key at the start of a line and the text after its colon. -/
def key? (text : List Char) : Option (Key × List Char) :=
  match quoted? text with
  | some (key, rest) =>
    match rest.dropWhile isSpace with
    | [':'] => some (⟨key, false⟩, [])
    | ':' :: c :: rest => if isBreak c then some (⟨key, false⟩, c :: rest) else none
    | _ => none
  | none =>
    if startsPlain text then
      (splitKey [] text).map fun r => (⟨trimRight r.1, true⟩, r.2)
    else none

def isEntry (text : List Char) : Bool :=
  text == ['-'] || (text.head? == some '-' && (text[1]?.map isBreak).getD false)

def joinLines (text : List Char) (lines : List Line) : List Char :=
  lines.foldl (fun acc l => acc ++ '\n' :: l.text) text

/-- The lines after the end of a value in brackets. -/
def linesAfter (rest : List Char) : Option (List Line) :=
  match (rest.splitOn '\n') with
  | [] => some []
  | first :: more => if isRemark first then some (more.map lineOf) else none

/-- Whether a comment ends a plain scalar. -/
def hasRemark (text : List Char) : Bool := (withoutRemark text).length < text.length

/-- Lines that go on with a plain scalar: they are at least `indent` deep, and none of them but the
last has a comment.  Each comes with the number of empty lines before it; `gap` holds those seen
since the last one. -/
def continued (indent : Nat) (gap : List Line) : List Line → List (Nat × List Char) × List Line
  | [] => ([], gap.reverse)
  | l :: rest =>
    if l.text.isEmpty then continued indent (l :: gap) rest
    else if l.indent < indent || l.isEmpty then ([], gap.reverse ++ l :: rest)
    else if hasRemark l.text then ([(gap.length, l.text)], rest)
    else
      let (taken, left) := continued indent [] rest
      ((gap.length, l.text) :: taken, left)

/-- Parts of a plain scalar are joined by a space, or by one newline for each empty line. -/
def joinParts (first : List Char) (more : List (Nat × List Char)) : List Char :=
  more.foldl (fun acc p =>
    acc ++ (if p.1 = 0 then [' '] else List.replicate p.1 '\n') ++ p.2) first

/-- A scalar or a value in brackets, which may go on in the lines below. -/
def inlineValue (indent : Nat) (text : List Char) (below : List Line) : Option (Node × List Line) :=
  match text with
  | c :: _ =>
    if c = '[' ∨ c = '{' then do
      -- Below a bracket the indentation of lines no longer matters.
      let whole := joinLines text below
      let (value, rest) ← flowValue (2 * whole.length + 2) whole
      let left ← linesAfter rest
      return (value, (below.drop (below.length - left.length)))
    else if c = '\'' ∨ c = '"' then do
      let (value, rest) ← quoted? text
      if isRemark rest then some (.quoted value, below) else none
    else if startsPlain text then
      let (more, left) := if hasRemark text then ([], below) else continued indent [] below
      let first := trimRight (withoutRemark text)
      let more := more.map fun p => (p.1, trimRight (withoutRemark p.2))
      if (first :: more.map (·.2)).any fun p => p.contains '\t' || (splitKey [] p).isSome then none
      else some (.plain (joinParts first more), left)
    else none
  | [] => some (.empty, below)

mutual

/-- The value of the lines that are at least `indent` deep. -/
def block : Nat → Nat → List Line → Option (Node × List Line)
  | 0, _, _ => none
  | fuel + 1, indent, lines =>
    match dropEmpty lines with
    | [] => some (.empty, [])
    | l :: rest =>
      if l.indent < indent then some (.empty, l :: rest)
      else if isEntry l.text then
        (entries fuel l.indent (l :: rest)).map fun r => (.list r.1, r.2)
      else if (key? l.text).isSome then
        (pairs fuel l.indent (l :: rest)).map fun r => (.mapping r.1, r.2)
      else inlineValue indent l.text rest

/-- The entries of a list. -/
def entries : Nat → Nat → List Line → Option (List Node × List Line)
  | 0, _, _ => none
  | fuel + 1, indent, lines =>
    match dropEmpty lines with
    | [] => some ([], [])
    | l :: rest =>
      if l.indent < indent || (l.indent == indent && !isEntry l.text) then some ([], l :: rest)
      else if l.indent > indent then none
      else do
        let after := l.text.drop 1
        let gap := (after.takeWhile (· == ' ')).length
        let inner : List Line :=
          if isRemark after then rest else ⟨indent + 1 + gap, after.drop gap⟩ :: rest
        let (item, rest) ← block fuel (indent + 1) inner
        let (items, rest) ← entries fuel indent rest
        return (item :: items, rest)

/-- The pairs of a mapping. -/
def pairs : Nat → Nat → List Line → Option (List (Key × Node) × List Line)
  | 0, _, _ => none
  | fuel + 1, indent, lines =>
    match dropEmpty lines with
    | [] => some ([], [])
    | l :: rest =>
      if l.indent < indent then some ([], l :: rest)
      else if l.indent > indent then none
      else do
        let (key, after) ← key? l.text
        let (value, rest) ←
          if isRemark after then
            match dropEmpty rest with
            | next :: more =>
              if next.indent == indent && isEntry next.text then
                (entries fuel indent (next :: more)).map fun r => (Node.list r.1, r.2)
              else block fuel (indent + 1) (next :: more)
            | [] => some (.empty, [])
          else inlineValue (indent + 1) (after.dropWhile isSpace) rest
        let (others, rest) ← pairs fuel indent rest
        return ((key, value) :: others, rest)

end

/-! ## Documents -/

def isAllowed (c : Char) : Bool :=
  c == '\t' || c == '\n' || c == '\r' || c.toNat == 0x85 ||
    (0x20 ≤ c.toNat && !(0x7f ≤ c.toNat && c.toNat ≤ 0x9f) && c.toNat != 0xfffe && c.toNat != 0xffff)

def withoutStart (lines : List Line) : List Line :=
  match dropEmpty lines with
  | l :: rest => if l.text == "---".toList && l.indent == 0 then rest else l :: rest
  | [] => []

/-- The node that a whole text spells, if it is within this part of the format. -/
def node? (text : String) : Option Node := do
  let cs := match text.toList with
    | '\ufeff' :: rest => rest
    | cs => cs
  if !cs.all isAllowed then none
  let lines := withoutStart ((cs.splitOn '\n').map lineOf)
  let (node, rest) ← block (2 * cs.length + 2) 0 lines
  if (dropEmpty rest).isEmpty then some node else none

/-! ## Values -/

/-- Why a text has no value. -/
inductive ReadFault
  | malformed
  | scalar (fault : ScalarFault)
  deriving DecidableEq, Repr

def scalarValue (cs : List Char) : Except ReadFault Value :=
  if isReserved cs then .error .malformed
  else
    match plainScalar cs with
    | .ok v => .ok v
    | .error fault => .error (.scalar fault)

/-- The name of an entry.  A plain one must be a scalar that has a value. -/
def keyName (key : Key) : Except ReadFault String := do
  if key.isPlain && key.text != ['='] then
    let _ ← scalarValue key.text
  return String.ofList key.text

def Key.isMerge (key : Key) : Bool := key.isPlain && key.text == ['<', '<']

/-- The entries of mappings to be merged: those of one mapping, or of several, the last one first. -/
def mergedEntries : Value → Except ReadFault (List (String × Value))
  | .object fields => .ok fields
  | .list items => do
    let parts ← items.mapM fun
      | .object fields => .ok fields
      | _ => .error .malformed
    return parts.reverse.flatten
  | _ => .error .malformed

mutual

/-- The value of a node.  Of two entries with one name the last one counts. -/
def Node.value : Node → Except ReadFault Value
  | .plain text => scalarValue text
  | .quoted text => .ok (.text (String.ofList text))
  | .list items => (itemValues items).map .list
  | .mapping pairs => do
    let (merged, own) ← entryValues pairs
    return .object (lastWins (merged ++ own))

def itemValues : List Node → Except ReadFault (List Value)
  | [] => .ok []
  | n :: rest => do
    let v ← n.value
    let vs ← itemValues rest
    return v :: vs

/-- The entries of a mapping: those merged into it, and its own. -/
def entryValues :
    List (Key × Node) → Except ReadFault (List (String × Value) × List (String × Value))
  | [] => .ok ([], [])
  | (key, n) :: rest =>
    if key.isMerge then do
      let found ← mergedEntries (← n.value)
      let (merged, own) ← entryValues rest
      return (found ++ merged, own)
    else do
      let name ← keyName key
      let v ← n.value
      let (merged, own) ← entryValues rest
      return (merged, (name, v) :: own)

end

/-- The value that a whole text spells. -/
def read (text : String) : Except ReadFault Value :=
  match node? text with
  | some node => node.value
  | none => .error .malformed

end Yaml
end EndpointDsl
