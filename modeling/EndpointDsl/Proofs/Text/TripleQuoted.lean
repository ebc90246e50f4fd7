import EndpointDsl.Proofs.Text.Lines
import Mathlib.Data.List.DropRight

/-!
Strings in triple quotes.

Such a string ends at the first three quotes, where a backslash takes the character after it out of
the count.  In a sealed text a quote or a backslash stands only behind a backslash, so that it holds
no end and leaves none half done.  Texts stay sealed when they are joined, and when they are cut at
any other character.
-/

namespace EndpointDsl
namespace Text

/-- What stands before the first three quotes that end a string, and what follows them. -/
def closing? : List Char → Option (List Char × List Char)
  | [] => none
  | '\\' :: c :: rest => (closing? rest).map fun found => ('\\' :: c :: found.1, found.2)
  | '"' :: '"' :: '"' :: rest => some ([], rest)
  | c :: rest => (closing? rest).map fun found => (c :: found.1, found.2)

/-- The contents of the string in triple quotes that a text starts with, and what follows it. -/
def tripleQuoted? : List Char → Option (List Char × List Char)
  | '"' :: '"' :: '"' :: rest => closing? rest
  | _ => none

/-- A character that means itself in a string. -/
def IsOrdinary (c : Char) : Prop := c ≠ '"' ∧ c ≠ '\\'

instance : DecidablePred IsOrdinary := fun c => inferInstanceAs (Decidable (c ≠ '"' ∧ c ≠ '\\'))

/-- Every quote and every backslash stands behind a backslash of its own. -/
inductive Sealed : List Char → Prop
  | nil : Sealed []
  | plain {c : Char} {cs : List Char} (hc : IsOrdinary c) (h : Sealed cs) : Sealed (c :: cs)
  | escaped {c : Char} {cs : List Char} (hc : ¬ IsOrdinary c) (h : Sealed cs) :
      Sealed ('\\' :: c :: cs)

variable {c : Char} {cs ds rest : List Char}

/-! ## Reading -/

theorem closing?_cons (hc : IsOrdinary c) :
    closing? (c :: cs) = (closing? cs).map fun found => (c :: found.1, found.2) := by
  obtain ⟨hquote, hbackslash⟩ := hc
  rw [closing?]
  · exact fun _ _ h _ => hbackslash h
  · exact fun _ h _ => hquote h

/-- A string ends at the quotes behind its sealed contents. -/
theorem closing?_of_sealed (h : Sealed cs) :
    closing? (cs ++ '"' :: '"' :: '"' :: rest) = some (cs, rest) := by
  induction h with
  | nil => rfl
  | plain hc h ih =>
    rw [List.cons_append, closing?_cons hc, ih]
    rfl
  | escaped hc h ih =>
    rw [List.cons_append, List.cons_append, closing?, ih]
    rfl

theorem tripleQuoted?_of_sealed (h : Sealed cs) :
    tripleQuoted? ('"' :: '"' :: '"' :: (cs ++ '"' :: '"' :: '"' :: rest)) = some (cs, rest) :=
  closing?_of_sealed h

/-! ## Joining -/

namespace Sealed

theorem append (hcs : Sealed cs) (hds : Sealed ds) : Sealed (cs ++ ds) := by
  induction hcs with
  | nil => exact hds
  | plain hc _ ih => exact .plain hc ih
  | escaped hc _ ih => exact .escaped hc ih

theorem of_ordinary (h : ∀ c ∈ cs, IsOrdinary c) : Sealed cs := by
  induction cs with
  | nil => exact .nil
  | cons c cs ih =>
    obtain ⟨hc, hcs⟩ := List.forall_mem_cons.mp h
    exact .plain hc (ih hcs)

/-! ## Cutting -/

/-- An ordinary character is never taken by a backslash, so both sides of it are sealed. -/
theorem split (hc : IsOrdinary c) (h : Sealed (cs ++ c :: ds)) : Sealed cs ∧ Sealed ds := by
  generalize hwhole : cs ++ c :: ds = whole at h
  induction h generalizing cs with
  | nil => exact absurd hwhole (by simp)
  | plain hd h ih =>
    cases cs with
    | nil =>
      obtain ⟨rfl, rfl⟩ := List.cons.inj hwhole
      exact ⟨.nil, h⟩
    | cons d cs =>
      obtain ⟨rfl, hrest⟩ := List.cons.inj hwhole
      obtain ⟨hcs, hds⟩ := ih hrest
      exact ⟨.plain hd hcs, hds⟩
  | escaped hd h ih =>
    cases cs with
    | nil => exact absurd (List.cons.inj hwhole).1 hc.2
    | cons b cs =>
      obtain ⟨rfl, hrest⟩ := List.cons.inj hwhole
      cases cs with
      | nil =>
        rw [← (List.cons.inj hrest).1] at hd
        exact absurd hc hd
      | cons d cs =>
        obtain ⟨rfl, hmore⟩ := List.cons.inj hrest
        obtain ⟨hcs, hds⟩ := ih hmore
        exact ⟨.escaped hd hcs, hds⟩

theorem of_cons (hc : IsOrdinary c) (h : Sealed (c :: cs)) : Sealed cs :=
  (@split c [] cs hc h).2

theorem dropWhile {p : Char → Bool} (hp : ∀ c, p c = true → IsOrdinary c) (h : Sealed cs) :
    Sealed (cs.dropWhile p) := by
  induction cs with
  | nil => exact h
  | cons c cs ih =>
    rw [List.dropWhile_cons]
    split
    · next hc => exact ih (h.of_cons (hp c hc))
    · exact h

theorem rdropWhile {p : Char → Bool} (hp : ∀ c, p c = true → IsOrdinary c) (h : Sealed cs) :
    Sealed (cs.rdropWhile p) := by
  induction cs using List.reverseRecOn with
  | nil => exact h
  | append_singleton cs c ih =>
    rw [List.rdropWhile_concat]
    split
    · next hc => exact ih (h.split (hp c hc)).1
    · exact h

theorem trimChars {p : Char → Bool} (hp : ∀ c, p c = true → IsOrdinary c) (h : Sealed cs) :
    Sealed (Text.trimChars p cs) :=
  (h.dropWhile hp).rdropWhile hp

end Sealed

theorem isOrdinary_of_isLineEnd (h : isLineEnd c = true) : IsOrdinary c := by
  constructor <;>
  · rintro rfl
    revert h
    decide

/-- The characters of the current line and those to come are sealed together. -/
theorem sealed_of_mem_linesFrom {line l : List Char} (h : Sealed (line.reverse ++ cs))
    (hl : l ∈ linesFrom line cs) : Sealed l := by
  fun_induction linesFrom line cs with
  | case1 line hline => cases hl
  | case2 line hline =>
    obtain rfl := List.mem_singleton.mp hl
    rwa [List.append_nil] at h
  | case3 line rest ih =>
    obtain ⟨hline, hrest⟩ := h.split (by decide)
    rcases List.mem_cons.mp hl with rfl | hl
    · exact hline
    · exact ih (hrest.of_cons (by decide)) hl
  | case4 line d rest hcr hend ih =>
    obtain ⟨hline, hrest⟩ := h.split (isOrdinary_of_isLineEnd hend)
    rcases List.mem_cons.mp hl with rfl | hl
    · exact hline
    · exact ih hrest hl
  | case5 line d rest hcr hend ih =>
    refine ih ?_ hl
    rwa [List.reverse_cons, List.append_assoc]

/-- The lines of a sealed text are sealed. -/
theorem sealed_of_mem_lines {s line : String} (h : Sealed s.toList)
    (hline : line ∈ lines (trimNewlines s)) : Sealed line.toList := by
  obtain ⟨l, hl, rfl⟩ := List.mem_map.mp hline
  rw [String.toList_ofList]
  refine @sealed_of_mem_linesFrom _ [] l ?_ hl
  rw [trimNewlines, String.toList_ofList]
  refine h.trimChars fun c hc => ?_
  rw [eq_of_beq hc]
  decide

end Text
end EndpointDsl
