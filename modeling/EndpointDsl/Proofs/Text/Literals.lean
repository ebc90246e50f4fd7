import EndpointDsl.Proofs.Name.Spelling
import EndpointDsl.Proofs.Text.NullFree
import EndpointDsl.Text.Escape

/-!
The values of the string literals in a piece of generated code.

Code is read character by character, as the language reads it.  A literal is a list of code points,
and an escape of four digits is one code point, whatever number it spells: the language does not
join the halves of a surrogate pair.  So a quoted text is read as its UTF-16 units, and that is the
text itself exactly if all of it lies in the basic plane.
-/

namespace EndpointDsl
namespace Text

/-! ## Reading code -/

/-- Where a reader of code stands. -/
inductive Place
  /-- Outside the literals, after a character of a word or not. -/
  | code (afterWord : Bool)
  /-- After a literal, where a second one would be joined to it. -/
  | closed
  | inside
  /-- After a backslash in a literal. -/
  | escape
  /-- Among the digits of an escape, `more` of which follow the next one. -/
  | hex (more value : Nat)
  /-- Among the digits of an escape, up to `more` of which follow. -/
  | octal (more value : Nat)
  deriving DecidableEq, Repr

structure LiteralReader where
  place : Place := .code false
  /-- The code points of the literal that is open. -/
  value : List Nat := []
  /-- The values of the literals that are closed. -/
  values : List (List Nat) := []
  deriving DecidableEq, Repr

/-- The letters and signs that spell one code point after a backslash. -/
def namedEscape? (c : Char) : Option Nat :=
  if c = '\\' ∨ c = '\'' ∨ c = '"' then some c.toNat
  else if c = 'a' then some 0x07
  else if c = 'b' then some 0x08
  else if c = 't' then some 0x09
  else if c = 'n' then some 0x0a
  else if c = 'v' then some 0x0b
  else if c = 'f' then some 0x0c
  else if c = 'r' then some 0x0d
  else none

/-- How many digits follow the first one after the letter of an escape. -/
def moreDigits? (c : Char) : Option Nat :=
  if c = 'x' then some 1
  else if c = 'u' then some 3
  else if c = 'U' then some 7
  else none

def octalValue? (c : Char) : Option Nat :=
  if '0' ≤ c ∧ c ≤ '7' then some (c.toNat - 48) else none

namespace LiteralReader

def add (r : LiteralReader) (points : List Nat) : LiteralReader :=
  { r with place := .inside, value := r.value ++ points }

/-- Comments and the other quote are not read. -/
def stepCode (r : LiteralReader) (afterWord : Bool) (c : Char) : Option LiteralReader :=
  if c = '"' then
    -- A word before the quote would give the literal another meaning.
    if afterWord then none else some { r with place := .inside }
  else if c = '\'' ∨ c = '#' ∨ c = '\x00' then none
  else some { r with place := .code (isIdentRest c) }

def stepClosed (r : LiteralReader) (c : Char) : Option LiteralReader :=
  if c = '"' then none
  else if c = ' ' ∨ c = '\n' then some r
  else r.stepCode false c

def stepInside (r : LiteralReader) (c : Char) : Option LiteralReader :=
  if c = '"' then some { place := .closed, value := [], values := r.values ++ [r.value] }
  else if c = '\\' then some { r with place := .escape }
  else if c = '\n' ∨ c = '\r' ∨ c = '\x00' then none
  else some (r.add [c.toNat])

/-- Characters that have names of their own are not read.  An escape that stands for nothing is
kept with its backslash. -/
def stepEscape (r : LiteralReader) (c : Char) : Option LiteralReader :=
  match namedEscape? c, moreDigits? c, octalValue? c with
  | some point, _, _ => some (r.add [point])
  | _, some more, _ => some { r with place := .hex more 0 }
  | _, _, some digit => some { r with place := .octal 2 digit }
  | _, _, _ =>
    if c = '\n' then some (r.add [])
    else if c = 'N' ∨ c = '\r' ∨ c = '\x00' then none
    else some (r.add ['\\'.toNat, c.toNat])

def stepHex (r : LiteralReader) (more value : Nat) (c : Char) : Option LiteralReader :=
  (hexValue? c).bind fun digit =>
    let sum := 16 * value + digit
    match more with
    | more + 1 => some { r with place := .hex more sum }
    | 0 => if sum < 0x110000 then some (r.add [sum]) else none

def stepOctal (r : LiteralReader) (more value : Nat) (c : Char) : Option LiteralReader :=
  match octalValue? c, more with
  | some digit, more + 1 => some { r with place := .octal more (8 * value + digit) }
  | _, _ => (r.add [value]).stepInside c

def step (r : LiteralReader) (c : Char) : Option LiteralReader :=
  match r.place with
  | .code afterWord => r.stepCode afterWord c
  | .closed => r.stepClosed c
  | .inside => r.stepInside c
  | .escape => r.stepEscape c
  | .hex more value => r.stepHex more value c
  | .octal more value => r.stepOctal more value c

def run (r : LiteralReader) (cs : List Char) : Option LiteralReader := cs.foldlM step r

theorem run_append (r : LiteralReader) (cs ds : List Char) :
    r.run (cs ++ ds) = (r.run cs).bind (·.run ds) :=
  List.foldlM_append

theorem run_cons (r : LiteralReader) (c : Char) (cs : List Char) :
    r.run (c :: cs) = (r.step c).bind (·.run cs) :=
  List.foldlM_cons

/-- The values of the literals, unless the text ends within one. -/
def result? (r : LiteralReader) : Option (List (List Nat)) :=
  match r.place with
  | .code _ | .closed => some r.values
  | _ => none

end LiteralReader

/-- The values of the string literals in a piece of code, in order. -/
def literals? (code : String) : Option (List (List Nat)) :=
  (({} : LiteralReader).run code.toList).bind (·.result?)

/-- Escapes by number and by name, and halves of a pair that are not joined. -/
example : literals? "f(\"\\x41\\101\\u00e9\\n\", g=[\"\\ud83d\\ude00\"])" =
    some [[0x41, 0x41, 0xe9, 0x0a], [0xd83d, 0xde00]] := by
  decide

def codePoints (s : String) : List Nat := s.toList.map Char.toNat

def utf16 (s : String) : List Nat := s.toList.flatMap fun c => utf16Units c.toNat

/-- The literals of a piece of code stand for exactly these texts. -/
def Denotes (code : String) (texts : List String) : Prop :=
  literals? code = some (texts.map codePoints)

instance (code : String) (texts : List String) : Decidable (Denotes code texts) :=
  inferInstanceAs (Decidable (literals? code = some (texts.map codePoints)))

/-- Every character of the text lies in the basic plane. -/
def IsBasic (s : String) : Prop := ∀ c ∈ s.toList, c.toNat < 0x10000

instance : DecidablePred IsBasic := fun s => List.decidableBAll _ s.toList

/-! ## One character of a literal -/

namespace LiteralReader

variable {r : LiteralReader}

theorem add_nil (h : r.place = .inside) : r.add [] = r := by
  obtain ⟨place, literal, values⟩ := r
  cases h
  rw [add, List.append_nil]

theorem add_add (r : LiteralReader) (xs ys : List Nat) : (r.add xs).add ys = r.add (xs ++ ys) := by
  simp only [add, List.append_assoc]

theorem hexValue?_lowerHexDigit : ∀ digit < 16, hexValue? (lowerHexDigit digit) = some digit := by
  decide

/-- The digits of a number, read one by one, add up to it. -/
theorem run_lowerHex {width more sum : Nat} (h : r.place = .hex (width + more) sum) (n : Nat) :
    r.run (lowerHex width n) =
      some { r with place := .hex more (16 ^ width * sum + n % 16 ^ width) } := by
  induction width generalizing more n with
  | zero =>
    obtain ⟨place, literal, values⟩ := r
    cases h
    rw [Nat.pow_zero, Nat.one_mul, Nat.mod_one, Nat.zero_add, Nat.add_zero]
    rfl
  | succ width ih =>
    rw [Nat.succ_add_eq_add_succ] at h
    have hlast : lowerHex (width + 1) n =
        lowerHex width (n / 16) ++ [lowerHexDigit (n % 16)] := rfl
    rw [hlast, run_append, ih h, Option.bind_some, run_cons]
    have hstep : 16 * (16 ^ width * sum + n / 16 % 16 ^ width) + n % 16 =
        16 ^ (width + 1) * sum + n % 16 ^ (width + 1) := by
      rw [Nat.pow_succ', Nat.mod_mul]
      ring
    show Option.bind (stepHex _ (more + 1) _ _) _ = _
    rw [stepHex, hexValue?_lowerHexDigit _ (Nat.mod_lt n (by decide)), Option.bind_some, hstep]
    rfl

/-- An escape of four digits is one code point. -/
theorem run_unitEscape (h : r.place = .inside) {n : Nat} (hn : n < 0x10000) :
    r.run (unitEscape n) = some (r.add [n]) := by
  obtain ⟨place, literal, values⟩ := r
  cases h
  have hlast : lowerHex 4 n = lowerHex 3 (n / 16) ++ [lowerHexDigit (n % 16)] := rfl
  have hrun : run ⟨.hex (3 + 0) 0, literal, values⟩ (lowerHex 3 (n / 16)) = _ := run_lowerHex rfl _
  show run ⟨.hex 3 0, literal, values⟩ (lowerHex 4 n) = _
  rw [hlast, run_append, hrun, Option.bind_some, run_cons]
  have hvalue : 16 * (16 ^ 3 * 0 + n / 16 % 16 ^ 3) + n % 16 = n := by omega
  show Option.bind (stepHex _ 0 _ _) _ = _
  rw [stepHex, hexValue?_lowerHexDigit _ (Nat.mod_lt n (by decide)), Option.bind_some, hvalue]
  show Option.bind (if n < 0x110000 then _ else _) _ = _
  rw [if_pos (by omega)]
  rfl

theorem run_units (h : r.place = .inside) {units : List Nat} (hunits : ∀ n ∈ units, n < 0x10000) :
    r.run (units.flatMap unitEscape) = some (r.add units) := by
  induction units generalizing r with
  | nil => exact congrArg some (add_nil h).symm
  | cons n units ih =>
    obtain ⟨hn, hunits⟩ := List.forall_mem_cons.mp hunits
    rw [List.flatMap_cons, run_append, run_unitEscape h hn, Option.bind_some, ih rfl hunits,
      add_add, List.singleton_append]

theorem toNat_lt (c : Char) : c.toNat < 0x110000 := by
  rcases c.valid with h | h <;> simp only [Char.toNat] <;> omega

theorem utf16Units_lt (c : Char) : ∀ n ∈ utf16Units c.toNat, n < 0x10000 := by
  have hc := toNat_lt c
  unfold utf16Units
  split
  · next hbasic => exact List.forall_mem_singleton.mpr hbasic
  · refine List.forall_mem_cons.mpr ⟨?_, List.forall_mem_singleton.mpr ?_⟩ <;> omega

theorem run_shortEscape (h : r.place = .inside) {c : Char} {cs : List Char}
    (hcs : shortEscape? c = some cs) : r.run cs = some (r.add (utf16Units c.toNat)) := by
  obtain ⟨place, literal, values⟩ := r
  cases h
  unfold shortEscape? at hcs
  split at hcs
  · next hc => cases hcs; rw [hc]; rfl
  split at hcs
  · next hc => cases hcs; rw [hc]; rfl
  split at hcs
  · next hc => cases hcs; rw [hc]; rfl
  split at hcs
  · next hc => cases hcs; rw [hc]; rfl
  split at hcs
  · next hc => cases hcs; rw [hc]; rfl
  split at hcs
  · next hc => cases hcs; rw [hc]; rfl
  split at hcs
  · next hc => cases hcs; rw [hc]; rfl
  · cases hcs

/-- However it is escaped, a character is read as its UTF-16 units. -/
theorem run_asciiEscape (h : r.place = .inside) (c : Char) :
    r.run (asciiEscape c) = some (r.add (utf16Units c.toNat)) := by
  unfold asciiEscape
  split
  · next cs hcs => exact run_shortEscape h hcs
  · next hshort =>
    split
    · next hvisible =>
      have hquote : c ≠ '"' := by rintro rfl; cases hshort
      have hslash : c ≠ '\\' := by rintro rfl; cases hshort
      have hplain : ¬ (c = '\n' ∨ c = '\r' ∨ c = '\x00') := by
        rintro (rfl | rfl | rfl) <;> exact absurd hvisible (by decide)
      have hunits : utf16Units c.toNat = [c.toNat] := if_pos (by omega)
      rw [run_cons, step, h]
      show Option.bind (stepInside r c) _ = _
      rw [stepInside, if_neg hquote, if_neg hslash, if_neg hplain, hunits]
      rfl
    · exact run_units h (utf16Units_lt c)

theorem run_asciiEscapes (h : r.place = .inside) (cs : List Char) :
    r.run (cs.flatMap asciiEscape) = some (r.add (cs.flatMap fun c => utf16Units c.toNat)) := by
  induction cs generalizing r with
  | nil => exact congrArg some (add_nil h).symm
  | cons c cs ih =>
    rw [List.flatMap_cons, run_append, run_asciiEscape h, Option.bind_some, ih rfl, add_add,
      List.flatMap_cons]

end LiteralReader

/-! ## Pieces of code -/

/-- From one place to another the text is read past literals of the values found. -/
def Reads (p : Place) (text : String) (found : List (List Nat)) (q : Place) : Prop :=
  ∀ values, LiteralReader.run ⟨p, [], values⟩ text.toList = some ⟨q, [], values ++ found⟩

/-- Where a piece of code may end. -/
def Place.IsOutside : Place → Prop
  | code _ | closed => True
  | _ => False

/-- A text that opens no literal. -/
def IsPlain (text : String) : Prop := ∀ c ∈ text.toList, c ∉ ['"', '\'', '#', '\x00']

instance : DecidablePred IsPlain := fun text => List.decidableBAll _ text.toList

section

variable {p q u : Place} {s t : String} {found others : List (List Nat)}

theorem Reads.append (h : Reads p s found q) (h' : Reads q t others u) :
    Reads p (s ++ t) (found ++ others) u := by
  intro values
  rw [String.toList_append, LiteralReader.run_append, h, Option.bind_some, h', List.append_assoc]

theorem literals?_of_reads (h : Reads (.code false) s found q) (hq : q.IsOutside) :
    literals? s = some found := by
  show ((LiteralReader.run ⟨.code false, [], []⟩ s.toList).bind _) = _
  rw [h, Option.bind_some]
  cases q <;> first | rfl | cases hq

theorem reads_of_run
    (h : ∀ values, LiteralReader.run ⟨p, [], values⟩ s.toList = some ⟨q, [], values⟩) :
    Reads p s [] q := by
  intro values
  rw [h, List.append_nil]

@[simp] theorem isPlain_append : IsPlain (s ++ t) ↔ IsPlain s ∧ IsPlain t := by
  simp only [IsPlain, String.toList_append, List.forall_mem_append]

theorem isPlain_of_wordChars (h : Name.WordChars s) : IsPlain s := by
  intro c hc hmem
  have hword : isIdentRest c = true := h c hc
  simp only [List.mem_cons, List.not_mem_nil, or_false] at hmem
  rcases hmem with rfl | rfl | rfl | rfl <;> exact absurd hword (by decide)

theorem reads_isPlain (h : IsPlain s) (afterWord : Bool) :
    ∃ afterWord', Reads (.code afterWord) s [] (.code afterWord') := by
  have hrun : ∀ (cs : List Char) (before : Bool), (∀ c ∈ cs, c ∉ ['"', '\'', '#', '\x00']) →
      ∃ after, ∀ values,
        LiteralReader.run ⟨.code before, [], values⟩ cs = some ⟨.code after, [], values⟩ := by
    intro cs
    induction cs with
    | nil => exact fun before _ => ⟨before, fun _ => rfl⟩
    | cons c cs ih =>
      intro before hcs
      obtain ⟨hc, hcs⟩ := List.forall_mem_cons.mp hcs
      simp only [List.mem_cons, List.not_mem_nil, or_false, not_or] at hc
      obtain ⟨after, hafter⟩ := ih (isIdentRest c) hcs
      refine ⟨after, fun values => ?_⟩
      rw [LiteralReader.run_cons]
      show Option.bind (LiteralReader.stepCode _ before c) _ = _
      rw [LiteralReader.stepCode, if_neg hc.1, if_neg (by simpa [not_or] using hc.2)]
      exact hafter values
  obtain ⟨after, hafter⟩ := hrun s.toList afterWord h
  exact ⟨after, reads_of_run hafter⟩

/-- A quoted text is one literal. -/
theorem reads_asciiLiteral (s : String) :
    Reads (.code false) (asciiLiteral s) [utf16 s] .closed := by
  intro values
  rw [asciiLiteral, String.toList_ofList, LiteralReader.run_append, LiteralReader.run_cons]
  show Option.bind (LiteralReader.run ⟨.inside, [], values⟩ (s.toList.flatMap asciiEscape)) _ = _
  rw [LiteralReader.run_asciiEscapes rfl]
  rfl

theorem reads_of_isOutside (hcode : ∀ afterWord, Reads (.code afterWord) s [] q)
    (hclosed : Reads .closed s [] q) (h : p.IsOutside) : Reads p s [] q := by
  cases p with
  | code afterWord => exact hcode afterWord
  | closed => exact hclosed
  | _ => exact False.elim h

/-- Pieces of code with a literal each, in a list between brackets. -/
theorem reads_bracketed {α : Type} {opening closing : String} {f : α → String}
    {value : α → List Nat} {items : List α}
    (hopening : Reads (.code false) opening [] (.code false))
    (hclosing : ∀ p : Place, p.IsOutside → Reads p closing [] (.code false))
    (h : ∀ x ∈ items, ∃ q : Place, q.IsOutside ∧ Reads (.code false) (f x) [value x] q) :
    Reads (.code false) (opening ++ String.intercalate ", " (items.map f) ++ closing)
      (items.map value) (.code false) := by
  have hcomma : ∀ q : Place, q.IsOutside → Reads q ", " [] (.code false) := fun _ =>
    reads_of_isOutside (fun _ => reads_of_run fun _ => rfl) (reads_of_run fun _ => rfl)
  have hitems : Reads (.code false) (String.intercalate ", " (items.map f) ++ closing)
      (items.map value) (.code false) := by
    induction items with
    | nil =>
      rw [List.map_nil, String.intercalate_nil, String.empty_append]
      exact hclosing _ trivial
    | cons x rest ih =>
      obtain ⟨⟨q, hq, hx⟩, hrest⟩ := List.forall_mem_cons.mp h
      cases rest with
      | nil => exact hx.append (hclosing q hq)
      | cons y others =>
        have hmore := (hx.append (hcomma q hq)).append (ih hrest)
        rw [← String.append_assoc] at hmore
        rw [List.map_cons, List.map_cons, String.intercalate_cons_cons]
        exact hmore
  rw [String.append_assoc]
  exact hopening.append hitems

end

/-! ## Quoted texts -/

/-- A visible character of ASCII, or the space. -/
def IsVisible (c : Char) : Prop := 0x20 ≤ c.toNat ∧ c.toNat ≤ 0x7e

instance : DecidablePred IsVisible := fun c =>
  inferInstanceAs (Decidable (0x20 ≤ c.toNat ∧ c.toNat ≤ 0x7e))

/-- A quoted text has only visible characters and spaces, so it stands on one line. -/
theorem visible_asciiLiteral (s : String) : ∀ c ∈ (asciiLiteral s).toList, IsVisible c := by
  have hescape : ∀ c d : Char, d ∈ asciiEscape c → IsVisible d := by
    intro c d hd
    unfold asciiEscape at hd
    split at hd
    · next cs hcs =>
      obtain ⟨letter, rfl, hletter⟩ : ∃ letter, cs = ['\\', letter] ∧ IsVisible letter := by
        unfold shortEscape? at hcs
        repeat' split at hcs
        all_goals first | exact ⟨_, (Option.some.inj hcs).symm, by decide⟩ | cases hcs
      rcases List.mem_cons.mp hd with rfl | hd
      · decide
      · exact List.mem_singleton.mp hd ▸ hletter
    · split at hd
      · next hvisible =>
        rw [List.mem_singleton.mp hd]
        exact hvisible
      · obtain ⟨n, -, hn⟩ := List.mem_flatMap.mp hd
        have hdigits : ∀ d ∈ lowerHex 4 n, IsVisible d := forall_mem_lowerHex (by decide) 4 n
        rcases List.mem_cons.mp hn with rfl | hn
        · decide
        · rcases List.mem_cons.mp hn with rfl | hn
          · decide
          · exact hdigits d hn
  intro c hc
  rw [asciiLiteral, String.toList_ofList, List.mem_append, List.mem_cons, List.mem_flatMap,
    List.mem_singleton] at hc
  rcases hc with (rfl | ⟨d, -, hd⟩) | rfl
  · decide
  · exact hescape d c hd
  · decide

/-- A literal in double quotes on one line, and its value. -/
structure IsLiteral (code : String) (value : List Nat) : Prop where
  quoted : ∃ body, code.toList = '"' :: body ++ ['"']
  visible : ∀ c ∈ code.toList, IsVisible c
  reads : literals? code = some [value]

theorem isLiteral_asciiLiteral (s : String) : IsLiteral (asciiLiteral s) (utf16 s) where
  quoted := ⟨s.toList.flatMap asciiEscape, String.toList_ofList⟩
  visible := visible_asciiLiteral s
  reads := literals?_of_reads (reads_asciiLiteral s) trivial

/-- Half of a surrogate pair is never the code point that the pair stands for. -/
theorem utf16_eq_codePoints_iff {s : String} : utf16 s = codePoints s ↔ IsBasic s := by
  unfold utf16 codePoints IsBasic
  induction s.toList with
  | nil => simp
  | cons c cs ih =>
    rw [List.flatMap_cons, List.map_cons, List.forall_mem_cons, ← ih]
    unfold utf16Units
    split
    · next hbasic =>
      rw [List.singleton_append, List.cons.injEq]
      exact ⟨fun h => ⟨hbasic, h.2⟩, fun h => ⟨rfl, h.2⟩⟩
    · next hastral =>
      have hc := LiteralReader.toNat_lt c
      refine ⟨fun h => ?_, fun h => absurd h.1 hastral⟩
      have hhead := (List.cons.inj h).1
      omega

theorem denotes_iff_isBasic {code : String} (texts : List String)
    (h : literals? code = some (texts.map utf16)) :
    Denotes code texts ↔ ∀ s ∈ texts, IsBasic s := by
  rw [Denotes, h, Option.some.injEq, List.map_inj_left]
  exact forall₂_congr fun s _ => utf16_eq_codePoints_iff

theorem isLiteral_codePoints_iff {s : String} :
    IsLiteral (asciiLiteral s) (codePoints s) ↔ IsBasic s := by
  have hliteral := isLiteral_asciiLiteral s
  rw [← utf16_eq_codePoints_iff]
  refine ⟨fun h => ?_, fun h => h ▸ hliteral⟩
  have hvalues := Option.some.inj (hliteral.reads.symm.trans h.reads)
  exact (List.cons.inj hvalues).1

end Text
end EndpointDsl
