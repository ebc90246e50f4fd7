import EndpointDsl.Tree.Parser

/-!
The rules of the parser as steps on a token list.

A rule hands on its rest with the proof that it is shorter, which is what makes the rules end.
Once they are defined the proof is in the way, since the type of each step mentions the rest of the
step before.  Here every rule is run without it, as a step that takes tokens off the front of a list
and can fail.  Each rule is then the sequence of the steps it is put together from, and a rule that
repeats itself satisfies the equation that says how.
-/

namespace EndpointDsl
namespace Tree
namespace Parser

/-- A step that takes tokens off the front of a list, or fails. -/
abbrev Rule (α : Type) := StateT (List Token) (Except SyntaxError) α

section

variable {α β γ δ : Type}

def run (rule : (ts : List Token) → Except SyntaxError (Reading ts α)) : Rule α :=
  fun ts => (rule ts).map Reading.outcome

def optionalOutcome {input : List Token} (r : OptionalReading input α) : α × List Token :=
  (r.value, r.rest)

def runOptional (rule : (ts : List Token) → Except SyntaxError (OptionalReading ts α)) : Rule α :=
  fun ts => (rule ts).map optionalOutcome

/-- The step reads at least one token when it returns. -/
def Shrinks (x : Rule α) : Prop :=
  ∀ ts a rest, x ts = .ok (a, rest) → rest.length < ts.length

theorem shrinks_run (rule : (ts : List Token) → Except SyntaxError (Reading ts α)) :
    Shrinks (run rule) := by
  intro ts a rest h
  rw [run] at h
  cases hrule : rule ts with
  | error e => rw [hrule] at h; cases h
  | ok r =>
    rw [hrule] at h
    cases h
    exact r.shorter

/-- The place of a mark, if it comes next.  Nothing is read. -/
def ahead (mark : Punct) : Rule (Option Location) := fun ts =>
  match ts with
  | ⟨.punct found, place⟩ :: _ => .ok (if found = mark then some place else none, ts)
  | _ => .ok (none, ts)

/-- Reads a mark, if it comes next. -/
def accept (mark : Punct) : Rule (Option Location) := fun ts =>
  match ts with
  | ⟨.punct found, place⟩ :: rest => .ok (if found = mark then (some place, rest) else (none, ts))
  | _ => .ok (none, ts)

/-- One step of a sequence: what follows it is run on the rest. -/
theorem map_bind {x : Except SyntaxError δ} {o : δ → α × List Token}
    {f : δ → Except SyntaxError γ} {k : γ → β × List Token} {first : Rule α} {g : α → Rule β}
    {ts : List Token} (hfirst : first ts = x.map o)
    (h : ∀ r, (f r).map k = g (o r).1 (o r).2) :
    (x >>= f).map k = (first >>= g) ts := by
  show _ = (first ts >>= fun p => g p.1 p.2)
  rw [hfirst]
  cases x with
  | error e => rfl
  | ok r => exact h r

/-- The last step of a sequence. -/
theorem map_last {x : Except SyntaxError δ} {o : δ → β × List Token}
    {f : δ → Except SyntaxError γ} {k : γ → β × List Token} {last : Rule β} {ts : List Token}
    (hlast : last ts = x.map o) (h : ∀ r, (f r).map k = .ok (o r)) :
    (x >>= f).map k = last ts := by
  rw [hlast]
  cases x with
  | error e => rfl
  | ok r => exact h r

theorem run_bind {first : Rule α} {f : α → Rule β} {ts rest : List Token} {a : α}
    (h : first ts = .ok (a, rest)) : (first >>= f) ts = f a rest := by
  show (first ts >>= fun p => f p.1 p.2) = _
  rw [h]
  rfl

theorem run_bind_error {first : Rule α} {f : α → Rule β} {ts : List Token} {e : SyntaxError}
    (h : first ts = .error e) : (first >>= f) ts = .error e := by
  show (first ts >>= fun p => f p.1 p.2) = _
  rw [h]
  rfl

theorem accept_mark (mark : Punct) (place : Location) (rest : List Token) :
    accept mark (⟨.punct mark, place⟩ :: rest) = .ok (some place, rest) := by
  rw [accept, if_pos rfl]

theorem accept_of_ne {mark : Punct} {ts : List Token}
    (h : ∀ place rest, ts ≠ ⟨.punct mark, place⟩ :: rest) : accept mark ts = .ok (none, ts) := by
  unfold accept
  split
  · next found place rest =>
    rw [if_neg fun heq => h place rest (by rw [heq])]
  · rfl

theorem ahead_mark (mark : Punct) (place : Location) (rest : List Token) :
    ahead mark (⟨.punct mark, place⟩ :: rest) = .ok (some place, ⟨.punct mark, place⟩ :: rest) := by
  rw [ahead, if_pos rfl]

theorem ahead_of_ne {mark : Punct} {ts : List Token}
    (h : ∀ place rest, ts ≠ ⟨.punct mark, place⟩ :: rest) : ahead mark ts = .ok (none, ts) := by
  unfold ahead
  split
  · next found place rest =>
    rw [if_neg fun heq => h place rest (by rw [heq])]
  · rfl

/-- What is next is the mark, or it is not. -/
theorem mark_cases (mark : Punct) (ts : List Token) :
    (∃ place rest, ts = ⟨.punct mark, place⟩ :: rest) ∨
      ∀ place rest, ts ≠ ⟨.punct mark, place⟩ :: rest := by
  by_cases h : ∃ place rest, ts = ⟨.punct mark, place⟩ :: rest
  · exact Or.inl h
  · exact Or.inr fun place rest heq => h ⟨place, rest, heq⟩

end

variable {stop : Location}

theorem run_punct_mark (mark : Punct) (wanted : Wanted) (place : Location) (rest : List Token) :
    run (punct stop mark wanted) (⟨.punct mark, place⟩ :: rest) = .ok (place, rest) := by
  rw [run, punct, if_pos rfl]
  rfl

theorem run_punct_of_ne {mark : Punct} {wanted : Wanted} {t : Token} {rest : List Token}
    (h : t.lexeme ≠ .punct mark) :
    run (punct stop mark wanted) (t :: rest) =
      .error ⟨.expected wanted (some t.lexeme), t.location⟩ := by
  obtain ⟨lexeme, place⟩ := t
  cases lexeme with
  | ident name => rfl
  | literal value => rfl
  | punct found =>
    rw [run, punct, if_neg fun heq => h (by rw [heq])]
    rfl

/-! ## Attributes -/

theorem run_attributeItem_ident (key : String) (place : Location) (rest : List Token) :
    run (attributeItem stop) (⟨.ident key, place⟩ :: rest) = (do
      match ← accept .equals with
      | some _ =>
        let value ← run (literal stop (.attributeValue key))
        return ⟨.setting key value.cause, place⟩
      | none => return ⟨.flag key, place⟩ : Rule AttributeItem) rest := by
  rcases mark_cases .equals rest with ⟨mark, more, rfl⟩ | hne
  · rw [run_bind (accept_mark .equals mark more)]
    exact map_bind rfl fun value => rfl
  · rw [run_bind (accept_of_ne hne), run, attributeItem]
    · rfl
    · exact fun p more heq => hne p more heq

theorem run_attributeItems : run (attributeItems stop) = (do
    match ← accept .rightBracket with
    | some _ => return []
    | none =>
      let item ← run (attributeItem stop)
      match ← accept .comma with
      | some _ =>
        let others ← run (attributeItems stop)
        return item :: others
      | none =>
        let _ ← run (punct stop .rightBracket .attributeClosing)
        return [item]) := by
  funext ts
  rcases mark_cases .rightBracket ts with ⟨place, rest, rfl⟩ | hne
  · rw [run_bind (accept_mark .rightBracket place rest), run, attributeItems]
    rfl
  · rw [run_bind (accept_of_ne hne), run, attributeItems]
    · refine map_bind rfl fun item => ?_
      obtain ⟨item, rest, hshorter⟩ := item
      rcases mark_cases .comma rest with ⟨place, more, rfl⟩ | hne'
      · refine Eq.trans ?_ (run_bind (accept_mark .comma place more)).symm
        exact map_bind rfl fun others => rfl
      · refine Eq.trans ?_ (run_bind (accept_of_ne hne')).symm
        simp only
        exact map_bind rfl fun closing => rfl
    · exact fun p rest heq => hne p rest heq

theorem run_bracketed : run (bracketed stop) = (do
    let opening ← run (punct stop .leftBracket .attributeItem)
    let items ← run (attributeItems stop)
    if items.isEmpty then throw ⟨.emptyAttribute, opening⟩ else return ⟨items, opening⟩) := by
  funext ts
  refine map_bind rfl fun opening => map_bind rfl fun items => ?_
  obtain ⟨items, rest, hshorter⟩ := items
  cases items <;> rfl

theorem run_attributes : runOptional (attributes stop) = (do
    match ← ahead .leftBracket with
    | some _ =>
      let first ← run (bracketed stop)
      let others ← runOptional (attributes stop)
      return first :: others
    | none => return []) := by
  funext ts
  rcases mark_cases .leftBracket ts with ⟨place, rest, rfl⟩ | hne
  · rw [run_bind (ahead_mark .leftBracket place rest), runOptional, attributes]
    exact map_bind rfl fun first => map_bind rfl fun others => rfl
  · rw [run_bind (ahead_of_ne hne), runOptional, attributes]
    · rfl
    · exact fun place rest heq => hne place rest heq

/-! ## Type expressions -/

theorem run_typeExpr (ts : List Token) : run (typeExpr stop) ts = (do
    match ← accept .question with
    | some place => run (namedType stop place true)
    | none => run (namedType stop (here stop ts) false)) ts := by
  rcases mark_cases .question ts with ⟨place, rest, rfl⟩ | hne
  · rw [run_bind (accept_mark .question place rest), run, typeExpr]
    exact map_last rfl fun inner => rfl
  · rw [run_bind (accept_of_ne hne), run, typeExpr]
    · rfl
    · exact fun place rest heq => hne place rest heq

theorem run_namedType {start : Location} {optional : Bool} :
    run (namedType stop start optional) = (do
      let name ← run (ident stop .typeName)
      match ← accept .leftAngle with
      | none => return ⟨name.cause, optional, [], start⟩
      | some _ =>
        match ← ahead .rightAngle with
        | some place => throw ⟨.emptyArguments name.cause, place⟩
        | none =>
          let args ← run (typeArgs stop)
          return ⟨name.cause, optional, args, start⟩) := by
  funext ts
  rw [run, namedType]
  refine map_bind rfl fun name => ?_
  obtain ⟨name, rest, hshorter⟩ := name
  rcases mark_cases .leftAngle rest with ⟨place, inside, rfl⟩ | hne
  · refine Eq.trans ?_ (run_bind (accept_mark .leftAngle place inside)).symm
    rcases mark_cases .rightAngle inside with ⟨close, more, rfl⟩ | hne'
    · refine Eq.trans ?_ (run_bind (ahead_mark .rightAngle close more)).symm
      rfl
    · refine Eq.trans ?_ (run_bind (ahead_of_ne hne')).symm
      simp only
      exact map_bind rfl fun args => rfl
  · refine Eq.trans ?_ (run_bind (accept_of_ne hne)).symm
    simp only
    split
    · exact absurd rfl (hne _ _)
    · exact absurd rfl (hne _ _)
    · rfl

theorem run_typeArgs : run (typeArgs stop) = (do
    let first ← run (typeExpr stop)
    match ← accept .comma with
    | some _ =>
      let others ← run (typeArgs stop)
      return first :: others
    | none =>
      let _ ← run (punct stop .rightAngle .argumentsClosing)
      return [first]) := by
  funext ts
  rw [run, typeArgs]
  refine map_bind rfl fun first => ?_
  obtain ⟨first, rest, hshorter⟩ := first
  rcases mark_cases .comma rest with ⟨place, more, rfl⟩ | hne
  · refine Eq.trans ?_ (run_bind (accept_mark .comma place more)).symm
    exact map_bind rfl fun others => rfl
  · refine Eq.trans ?_ (run_bind (accept_of_ne hne)).symm
    simp only
    exact map_bind rfl fun closing => rfl

/-! ## Blocks -/

/-- The step between two members. -/
def Separator.rule : Separator → Rule Unit
  | .nothing => pure ()
  | .optionalComma => do
    let _ ← accept .comma

theorem skip_mark (mark : Punct) (place : Location) (rest : List Token) :
    skip mark (⟨.punct mark, place⟩ :: rest) = rest := by
  rw [skip, if_pos rfl]

theorem skip_of_ne {mark : Punct} {ts : List Token}
    (h : ∀ place rest, ts ≠ ⟨.punct mark, place⟩ :: rest) : skip mark ts = ts := by
  unfold skip
  split
  · next found place rest =>
    rw [if_neg fun heq => h place rest (by rw [heq])]
  · rfl

theorem Separator.rule_apply (separator : Separator) (ts : List Token) :
    separator.rule ts = .ok ((), separator.skip ts) := by
  cases separator with
  | nothing => rfl
  | optionalComma =>
    show _ = Except.ok ((), Parser.skip .comma ts)
    rcases mark_cases .comma ts with ⟨place, rest, rfl⟩ | hne
    · rw [skip_mark]
      exact run_bind (accept_mark .comma place rest)
    · rw [skip_of_ne hne]
      exact run_bind (accept_of_ne hne)

section

variable {α : Type} {rule : (ts : List Token) → Except SyntaxError (Reading ts α)}
  {separator : Separator} {unclosed : SyntaxError}

theorem run_members_nil : run (members rule separator unclosed) [] = .error unclosed := by
  rw [run, members]
  rfl

theorem run_members_cons (t : Token) (more : List Token) :
    run (members rule separator unclosed) (t :: more) = (do
      match ← accept .rightBrace with
      | some _ => return []
      | none =>
        let first ← run rule
        separator.rule
        let others ← run (members rule separator unclosed)
        return first :: others) (t :: more) := by
  rcases mark_cases .rightBrace (t :: more) with ⟨place, rest, heq⟩ | hne
  · cases heq
    rw [run_bind (accept_mark .rightBrace place more), run, members]
    rfl
  · rw [run_bind (accept_of_ne hne), run, members]
    · refine map_bind rfl fun first => ?_
      refine Eq.trans ?_ (run_bind (separator.rule_apply first.rest)).symm
      exact map_bind rfl fun others => rfl
    · exact fun place heq => hne place more (by rw [← heq])

end

theorem run_field : run (field stop) = (do
    let attrs ← runOptional (attributes stop)
    let name ← run (ident stop .fieldName)
    let _ ← run (punct stop .colon (.colonAfterField name.cause))
    let type ← run (typeExpr stop)
    return ⟨name.cause, type, attrs, name.location⟩) := by
  funext ts
  exact map_bind rfl fun attrs => map_bind rfl fun name => map_bind rfl fun colon =>
    map_bind rfl fun type => rfl

theorem run_fields (owner : String) : run (fields stop owner) = (do
    let opening ← run (punct stop .leftBrace (.body owner))
    run (members (field stop) .optionalComma ⟨.unterminatedBody owner, opening⟩)) := by
  funext ts
  exact map_bind rfl fun opening => map_last rfl fun inside => rfl

theorem run_payload (name : String) : runOptional (payload stop name) = (do
    match ← accept .leftParen with
    | some _ =>
      let type ← run (typeExpr stop)
      let _ ← run (punct stop .rightParen .payloadClosing)
      return some type
    | none =>
      match ← ahead .leftBrace with
      | some place => throw ⟨.structLikeVariant name, place⟩
      | none => return none) := by
  funext ts
  rcases mark_cases .leftParen ts with ⟨place, rest, rfl⟩ | hne
  · rw [run_bind (accept_mark .leftParen place rest)]
    exact map_bind rfl fun type => map_bind rfl fun closing => rfl
  · rw [run_bind (accept_of_ne hne)]
    rcases mark_cases .leftBrace ts with ⟨place, rest, rfl⟩ | hne'
    · refine Eq.trans ?_ (run_bind (ahead_mark .leftBrace place rest)).symm
      rfl
    · refine Eq.trans ?_ (run_bind (ahead_of_ne hne')).symm
      rw [runOptional, payload]
      · rfl
      · exact fun place rest heq => hne place rest heq
      · exact fun place rest heq => hne' place rest heq

theorem run_variant : run (variant stop) = (do
    let attrs ← runOptional (attributes stop)
    let name ← run (ident stop .variantName)
    let type ← runOptional (payload stop name.cause)
    return ⟨name.cause, type, attrs, name.location⟩) := by
  funext ts
  exact map_bind rfl fun attrs => map_bind rfl fun name => map_bind rfl fun type => rfl

/-! ## Items -/

theorem run_roleTag : runOptional (roleTag stop) = (do
    match ← accept .leftAngle with
    | none => return none
    | some _ =>
      let word ← run (ident stop .role)
      match Role.ofName? word.cause with
      | none => throw ⟨.unknownRole word.cause, word.location⟩
      | some role =>
        let _ ← run (punct stop .rightAngle .roleClosing)
        return some role) := by
  funext ts
  rcases mark_cases .leftAngle ts with ⟨place, rest, rfl⟩ | hne
  · rw [run_bind (accept_mark .leftAngle place rest)]
    refine map_bind rfl fun word => ?_
    obtain ⟨word, rest, hshorter⟩ := word
    cases hrole : Role.ofName? word.cause with
    | none =>
      simp only [Reading.outcome, hrole]
      rfl
    | some role =>
      simp only [Reading.outcome, hrole]
      exact map_bind rfl fun closing => rfl
  · rw [run_bind (accept_of_ne hne), runOptional, roleTag]
    · rfl
    · exact fun place rest heq => hne place rest heq

theorem run_roleStruct (attrs : List Attribute) (role : Role) (head : Location) :
    run (roleStruct stop attrs role head) = (do
      let _ ← accept .colon
      let inside ← run (fields stop role.name)
      return .struct ⟨role.name, some role, inside, attrs, head⟩) := by
  funext ts
  have hbody : run (roleStruct stop attrs role head) ts = (do
      let inside ← run (fields stop role.name)
      return .struct ⟨role.name, some role, inside, attrs, head⟩ : Rule Item) (skip .colon ts) :=
    map_bind rfl fun inside => rfl
  rw [hbody]
  rcases mark_cases .colon ts with ⟨place, rest, rfl⟩ | hne
  · rw [run_bind (accept_mark .colon place rest), skip_mark]
  · rw [run_bind (accept_of_ne hne), skip_of_ne hne]

theorem run_namedStruct (attrs : List Attribute) (head : Location) :
    run (namedStruct stop attrs head) = (do
      let name ← run (ident stop .structName)
      let role ← runOptional (roleTag stop)
      let inside ← run (fields stop name.cause)
      return .struct ⟨name.cause, role, inside, attrs, head⟩) := by
  funext ts
  exact map_bind rfl fun name => map_bind rfl fun role => map_bind rfl fun inside => rfl

theorem run_enumeration (attrs : List Attribute) (head : Location) :
    run (enumeration stop attrs head) = (do
      let name ← run (ident stop .enumName)
      let opening ← run (punct stop .leftBrace (.enumBody name.cause))
      let inside ← run (members (variant stop) .optionalComma
        ⟨.unterminatedEnum name.cause, opening⟩)
      return .enum ⟨name.cause, inside, attrs, head⟩) := by
  funext ts
  exact map_bind rfl fun name => map_bind rfl fun opening => map_bind rfl fun inside => rfl

theorem run_itemBody (attrs : List Attribute) (head : Located String) :
    run (itemBody stop attrs head) =
      match Role.ofName? head.cause with
      | some role => run (roleStruct stop attrs role head.location)
      | none =>
        if head.cause = "struct" then run (namedStruct stop attrs head.location)
        else if head.cause = "enum" then run (enumeration stop attrs head.location)
        else throw ⟨.unknownRole head.cause, head.location⟩ := by
  funext ts
  rw [run, itemBody]
  cases Role.ofName? head.cause with
  | some role => rfl
  | none =>
    by_cases hstruct : head.cause = "struct"
    · rw [if_pos hstruct, if_pos hstruct]
      rfl
    · rw [if_neg hstruct, if_neg hstruct]
      by_cases henum : head.cause = "enum"
      · rw [if_pos henum, if_pos henum]
        rfl
      · rw [if_neg henum, if_neg henum]
        rfl

theorem run_item : run (item stop) = (do
    let attrs ← runOptional (attributes stop)
    let head ← run (ident stop .itemHead)
    run (itemBody stop attrs head)) := by
  funext ts
  exact map_bind rfl fun attrs => map_bind rfl fun head => map_last rfl fun body => rfl

/-! ## Methods and endpoints -/

theorem run_verb : run (verb stop) = (do
    let word ← run (ident stop .verb)
    match Verb.ofName? word.cause with
    | none => throw ⟨.unknownVerb word.cause, word.location⟩
    | some v => return ⟨v, word.location⟩) := by
  funext ts
  refine map_bind rfl fun word => ?_
  obtain ⟨word, rest, hshorter⟩ := word
  cases hverb : Verb.ofName? word.cause with
  | none =>
    simp only [Reading.outcome, hverb]
    rfl
  | some v =>
    simp only [Reading.outcome, hverb]
    rfl

theorem run_path : run (path stop) = (do
    let raw ← run (literal stop .path)
    match PathTemplate.parse raw.cause with
    | .error fault => throw ⟨.malformedPath raw.cause fault, raw.location⟩
    | .ok template => return ⟨template, raw.location⟩) := by
  funext ts
  refine map_bind rfl fun raw => ?_
  obtain ⟨raw, rest, hshorter⟩ := raw
  cases hpath : PathTemplate.parse raw.cause with
  | error fault =>
    simp only [Reading.outcome, hpath]
    rfl
  | ok template =>
    simp only [Reading.outcome, hpath]
    rfl

theorem run_method : run (method stop) = (do
    let v ← run (verb stop)
    let p ← run (path stop)
    let _ ← run (punct stop .arrow .arrow)
    let opening ← run (punct stop .leftBrace .methodBody)
    let items ← run (members (item stop) .nothing
      ⟨.unterminatedMethod v.cause p.cause.raw, opening⟩)
    return ⟨v.cause, p.cause, p.location, items, v.location⟩) := by
  funext ts
  exact map_bind rfl fun v => map_bind rfl fun p => map_bind rfl fun arrow =>
    map_bind rfl fun opening => map_bind rfl fun items => rfl

theorem run_endpoint : run (endpoint stop) = (do
    let opening ← run (punct stop .leftBracket .endpointOpening)
    let isPublic ← runOptional (fun ts => .ok (visibility ts))
    let name ← run (ident stop .endpointName)
    let _ ← run (punct stop .colon (.colonAfterEndpoint name.cause))
    let _ ← run (punct stop .leftBrace .endpointBody)
    let methods ← run (members (method stop) .nothing
      ⟨.unterminatedEndpoint name.cause, opening⟩)
    let _ ← run (punct stop .rightBracket (.endpointClosing name.cause))
    return ⟨name.cause, isPublic, methods, opening⟩) := by
  funext ts
  refine map_bind rfl fun opening => ?_
  refine Eq.trans ?_ (run_bind rfl).symm
  exact map_bind rfl fun name => map_bind rfl fun colon =>
    map_bind rfl fun brace => map_bind rfl fun methods => map_bind rfl fun closing => rfl

/-! ## Blocks one after another -/

/-- What the block at the front comes to, and then the blocks after it. -/
def firstBlock (stop : Location) : List Token → List (Except SyntaxError Endpoint)
  | [] => []
  | t :: rest =>
    match run (endpoint stop) (t :: rest) with
    | .ok (a, more) => .ok a :: blocks stop true more
    | .error e => .error e :: blocks stop true (recover (t :: rest))

theorem blocks_eq_firstBlock (commaAllowed : Bool) (ts : List Token) :
    blocks stop commaAllowed ts =
      firstBlock stop (if commaAllowed = true then skip .comma ts else ts) := by
  rw [blocks]
  split
  · next hnil =>
    rw [hnil]
    rfl
  · next t rest hcons =>
    refine Eq.trans ?_ (congrArg (firstBlock stop) hcons.symm)
    simp only [firstBlock, run]
    cases endpoint stop (t :: rest) with
    | error e => rfl
    | ok r => rfl

theorem blocks_after (ts : List Token) :
    blocks stop true ts = firstBlock stop (skip .comma ts) := by
  rw [blocks_eq_firstBlock, if_pos rfl]

theorem blocks_comma (place : Location) (rest : List Token) :
    blocks stop true (⟨.punct .comma, place⟩ :: rest) = firstBlock stop rest := by
  rw [blocks_after, skip_mark]

theorem blocks_of_ne {commaAllowed : Bool} {ts : List Token}
    (h : ∀ place rest, ts ≠ ⟨.punct .comma, place⟩ :: rest) :
    blocks stop commaAllowed ts = firstBlock stop ts := by
  rw [blocks_eq_firstBlock, skip_of_ne h, ite_self]

theorem blocks_nil (commaAllowed : Bool) : blocks stop commaAllowed [] = [] :=
  blocks_of_ne fun _ _ heq => by cases heq

end Parser
end Tree
end EndpointDsl
