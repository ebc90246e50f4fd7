import EndpointDsl.Proofs.Text.NullFree

/-!
The names that a piece of generated code mentions.

Code is cut into words, quoted literals and single symbols.  A word is a use of a name unless it is
an attribute, which follows a dot, or a label, which an equals sign or a colon follows: the label
of an argument or of a parameter.
-/

namespace EndpointDsl
namespace Text

inductive Token
  | word (name : String)
  | literal
  | symbol (c : Char)
  deriving DecidableEq, Repr

namespace Token

/-- What the next character continues. -/
inductive State
  | code (chars : List Char)
  | literal
  | escape

def ofChars (chars : List Char) : List Token :=
  if chars = [] then [] else [word (String.ofList chars)]

def scan : State → List Char → List Token
  | .code chars, [] => ofChars chars
  | .code chars, c :: rest =>
    if isIdentRest c then scan (.code (chars ++ [c])) rest
    else if c = '"' then ofChars chars ++ scan .literal rest
    else ofChars chars ++ symbol c :: scan (.code []) rest
  | .literal, [] => []
  | .literal, c :: rest =>
    if c = '\\' then scan .escape rest
    else if c = '"' then literal :: scan (.code []) rest
    else scan .literal rest
  | .escape, [] => []
  | .escape, _ :: rest => scan .literal rest

/-- The tokens of a piece of code. -/
def all (cs : List Char) : List Token := scan (.code []) cs

def name? : Token → Option String
  | word name => some name
  | _ => none

/-- Whether the word before these tokens is a label. -/
def labels : List Token → Bool
  | symbol c :: _ => c == '=' || c == ':'
  | _ => false

/-- The words that are uses of names, after a dot or not. -/
def uses : Bool → List Token → List String
  | _, [] => []
  | dotted, word name :: rest =>
    if dotted || labels rest then uses false rest else name :: uses false rest
  | _, literal :: rest => uses false rest
  | _, symbol c :: rest => uses (c == '.') rest

end Token

/-- Every word of a piece of code, in order. -/
def words (cs : List Char) : List String := (Token.all cs).filterMap Token.name?

/-- The names that a piece of code uses, in order. -/
def usedNames (cs : List Char) : List String := Token.uses false (Token.all cs)

/-! ## Words -/

section

variable {word rest : List Char} {c : Char}

/-- The word before this text ends where it starts. -/
def Breaks (rest : List Char) : Prop := ∀ c ∈ rest.head?, isIdentRest c = false

theorem scan_word (h : ∀ c ∈ word, isIdentRest c = true) (before : List Char) :
    Token.scan (.code before) (word ++ rest) = Token.scan (.code (before ++ word)) rest := by
  induction word generalizing before with
  | nil => rw [List.append_nil, List.nil_append]
  | cons c word ih =>
    obtain ⟨hc, hword⟩ := List.forall_mem_cons.mp h
    rw [List.cons_append, Token.scan, if_pos hc, ih hword, List.append_assoc]
    rfl

theorem scan_breaks (h : Breaks rest) :
    Token.scan (.code word) rest = Token.ofChars word ++ Token.all rest := by
  cases rest with
  | nil => exact (List.append_nil _).symm
  | cons c rest =>
    have hc : ¬ isIdentRest c = true := Bool.eq_false_iff.mp (h c rfl)
    rw [Token.all, Token.scan, if_neg hc, Token.scan, if_neg hc]
    split <;> rfl

theorem all_word (hword : ∀ c ∈ word, isIdentRest c = true) (hne : word ≠ [])
    (hrest : Breaks rest) :
    Token.all (word ++ rest) = .word (String.ofList word) :: Token.all rest := by
  rw [Token.all, scan_word hword, List.nil_append, scan_breaks hrest, Token.ofChars, if_neg hne]
  rfl

theorem all_symbol (hc : isIdentRest c = false) (hquote : c ≠ '"') :
    Token.all (c :: rest) = .symbol c :: Token.all rest := by
  rw [Token.all, Token.scan, if_neg (Bool.eq_false_iff.mp hc), if_neg hquote]
  rfl

end

/-! ## Literals -/

theorem scan_literal_plain {cs rest : List Char} (h : ∀ c ∈ cs, c ≠ '\\' ∧ c ≠ '"') :
    Token.scan .literal (cs ++ rest) = Token.scan .literal rest := by
  induction cs with
  | nil => rfl
  | cons c cs ih =>
    obtain ⟨⟨hslash, hquote⟩, hcs⟩ := List.forall_mem_cons.mp h
    rw [List.cons_append, Token.scan, if_neg hslash, if_neg hquote, ih hcs]

theorem scan_literal_units (units : List Nat) (rest : List Char) :
    Token.scan .literal (units.flatMap unitEscape ++ rest) = Token.scan .literal rest := by
  induction units with
  | nil => rfl
  | cons n units ih =>
    rw [List.flatMap_cons, List.append_assoc]
    have hdigits : ∀ c ∈ lowerHex 4 n, c ≠ '\\' ∧ c ≠ '"' := forall_mem_lowerHex (by decide) 4 n
    -- The backslash takes the letter after it along.
    show Token.scan .literal (lowerHex 4 n ++ (units.flatMap unitEscape ++ rest)) = _
    rw [scan_literal_plain hdigits, ih]

theorem scan_literal_asciiEscape (c : Char) (rest : List Char) :
    Token.scan .literal (asciiEscape c ++ rest) = Token.scan .literal rest := by
  unfold asciiEscape
  split
  · next cs hcs =>
    obtain ⟨d, rfl⟩ : ∃ d, cs = ['\\', d] := by
      unfold shortEscape? at hcs
      repeat' split at hcs
      all_goals first | exact ⟨_, (Option.some.inj hcs).symm⟩ | cases hcs
    rfl
  · next hshort =>
    split
    · refine scan_literal_plain (List.forall_mem_singleton.mpr ⟨?_, ?_⟩) <;>
      · rintro rfl
        cases hshort
    · exact scan_literal_units _ rest

/-- However it is escaped, a quoted text is one token. -/
theorem all_asciiLiteral (s : String) (rest : List Char) :
    Token.all ((asciiLiteral s).toList ++ rest) = .literal :: Token.all rest := by
  have hchars : ∀ cs : List Char, Token.scan .literal (cs.flatMap asciiEscape ++ '"' :: rest) =
      .literal :: Token.all rest := by
    intro cs
    induction cs with
    | nil => rfl
    | cons c cs ih => rw [List.flatMap_cons, List.append_assoc, scan_literal_asciiEscape, ih]
  rw [asciiLiteral, String.toList_ofList, List.append_assoc]
  exact hchars s.toList

/-! ## Names in use -/

section

variable {name : String} {rest : List Char} {c : Char}

/-- A text that ends the word before it without making it a label. -/
def EndsUse (rest : List Char) : Prop :=
  ∀ c ∈ rest.head?, isIdentRest c = false ∧ c ≠ '"' ∧ c ≠ '=' ∧ c ≠ ':'

theorem endsUse_nil : EndsUse [] := fun c hc => absurd hc (Option.not_mem_none c)

theorem endsUse_cons (h : isIdentRest c = false ∧ c ≠ '"' ∧ c ≠ '=' ∧ c ≠ ':') :
    EndsUse (c :: rest) := by
  rintro _ ⟨⟩
  exact h

theorem EndsUse.breaks (h : EndsUse rest) : Breaks rest := fun c hc => (h c hc).1

theorem EndsUse.labels (h : EndsUse rest) : Token.labels (Token.all rest) = false := by
  cases rest with
  | nil => rfl
  | cons c rest =>
    obtain ⟨hc, hquote, hequals, hcolon⟩ := h c rfl
    rw [all_symbol hc hquote, Token.labels, beq_false_of_ne hequals, beq_false_of_ne hcolon]
    rfl

theorem usedNames_word (hword : Name.WordChars name) (hne : name.toList ≠ [])
    (hrest : EndsUse rest) : usedNames (name.toList ++ rest) = name :: usedNames rest := by
  rw [usedNames, all_word hword hne hrest.breaks, Token.uses, hrest.labels, String.ofList_toList]
  rfl

theorem usedNames_label (hword : Name.WordChars name) (hne : name.toList ≠ [])
    (hc : c = '=' ∨ c = ':') : usedNames (name.toList ++ c :: rest) = usedNames rest := by
  have hsymbol : isIdentRest c = false ∧ c ≠ '"' ∧ (c == '.') = false ∧
      (c == '=' || c == ':') = true := by
    rcases hc with rfl | rfl <;> decide
  obtain ⟨hbreaks, hquote, hdot, hlabel⟩ := hsymbol
  have hrest : Breaks (c :: rest) := by
    rintro _ ⟨⟩
    exact hbreaks
  rw [usedNames, all_word hword hne hrest, all_symbol hbreaks hquote, Token.uses, Token.labels,
    hlabel, Bool.or_true, if_pos rfl, Token.uses, hdot]
  rfl

theorem usedNames_symbol (hc : isIdentRest c = false) (hquote : c ≠ '"') (hdot : c ≠ '.') :
    usedNames (c :: rest) = usedNames rest := by
  rw [usedNames, all_symbol hc hquote, Token.uses, beq_false_of_ne hdot]
  rfl

theorem usedNames_asciiLiteral (s : String) (rest : List Char) :
    usedNames ((asciiLiteral s).toList ++ rest) = usedNames rest := by
  rw [usedNames, all_asciiLiteral, Token.uses]
  rfl

theorem words_word (hword : Name.WordChars name) (hne : name.toList ≠ []) (hrest : Breaks rest) :
    words (name.toList ++ rest) = name :: words rest := by
  rw [words, all_word hword hne hrest, String.ofList_toList]
  rfl

theorem words_symbol (hc : isIdentRest c = false) (hquote : c ≠ '"') :
    words (c :: rest) = words rest := by
  rw [words, all_symbol hc hquote]
  rfl

end

end Text
end EndpointDsl
