import EndpointDsl.Proofs.Path.Template
import EndpointDsl.Proofs.Tree.Rules
import Mathlib.Data.List.Chain

/-!
Path templates as concatenations.

A text is a template exactly if it can be put together from runs without braces and names between
braces, in whatever pieces.  What is read of it is the one way to do so that has no empty run and no
two runs next to each other.  A text that is no template has a template in front of the brace that is
at fault.
-/

namespace EndpointDsl

/-- What a segment stands for in a template. -/
def Segment.chars : Segment → List Char
  | literal text => text.toList
  | param name => '\x7b' :: (name.toList ++ ['\x7d'])

/-- A run has no braces, and a name is an identifier, or one with a newline behind it. -/
def Segment.WellFormed : Segment → Prop
  | literal text => ∀ c ∈ text.toList, c ≠ '\x7b' ∧ c ≠ '\x7d'
  | param name => ∃ ident, isIdent ident = true ∧
      (name.toList = ident ∨ name.toList = ident ++ ['\n'])

namespace PathTemplate

/-- The segments put the characters together, with no run that is empty or could be joined to the
next one. -/
structure Decomposes (segments : List Segment) (cs : List Char) : Prop where
  wellFormed : ∀ s ∈ segments, s.WellFormed
  chars_eq : segments.flatMap Segment.chars = cs
  filled : .literal "" ∉ segments
  apart : segments.IsChain fun s t => s.param? = none → t.param? ≠ none

/-- A run in front of segments, joined to a run that they start with. -/
def prepend (run : List Char) : List Segment → List Segment
  | .literal text :: rest => .literal (String.ofList (run ++ text.toList)) :: rest
  | segments => literalSegment run ++ segments

/-- The segments with the runs next to each other joined, and without empty ones. -/
def joined : List Segment → List Segment
  | [] => []
  | .literal text :: rest => prepend text.toList (joined rest)
  | .param name :: rest => .param name :: joined rest

section

variable {segments : List Segment} {cs run name front rest more : List Char} {fault : PathFault}

theorem isBrace_eq_false_iff {c : Char} : isBrace c = false ↔ c ≠ '{' ∧ c ≠ '}' := by
  rw [isBrace, Bool.or_eq_false_iff, beq_eq_false_iff_ne, beq_eq_false_iff_ne]

theorem isParamName_iff :
    isParamName name = true ↔
      ∃ ident, isIdent ident = true ∧ (name = ident ∨ name = ident ++ ['\n']) := by
  rw [isParamName, Bool.or_eq_true, Bool.and_eq_true, beq_iff_eq]
  constructor
  · rintro (h | ⟨hlast, h⟩)
    · exact ⟨name, h, Or.inl rfl⟩
    · obtain ⟨front, rfl⟩ := List.getLast?_eq_some_iff.mp hlast
      rw [List.dropLast_concat] at h
      exact ⟨front, h, Or.inr rfl⟩
  · rintro ⟨ident, h, rfl | rfl⟩
    · exact Or.inl h
    · rw [List.getLast?_concat, List.dropLast_concat]
      exact Or.inr ⟨rfl, h⟩

theorem wellFormed_literal_iff {text : String} :
    (Segment.literal text).WellFormed ↔ ∀ c ∈ text.toList, isBrace c = false :=
  forall₂_congr fun _ _ => isBrace_eq_false_iff.symm

theorem wellFormed_param_iff {name : String} :
    (Segment.param name).WellFormed ↔ isParamName name.toList = true := isParamName_iff.symm

theorem literalSegment_nil : literalSegment [] = [] := rfl

theorem spells_nil : Spells [] [] := literalSegment_nil ▸ .text nofun

theorem literalSegment_of_ne_nil (h : run ≠ []) :
    literalSegment run = [.literal (String.ofList run)] := by
  rw [literalSegment, if_neg (by rwa [List.isEmpty_iff])]

/-! ## Segments that are read -/

theorem prepend_literalSegment (run more : List Char) {tail : List Segment}
    (htail : ∀ s ∈ tail.head?, s.param? ≠ none) :
    prepend run (literalSegment more ++ tail) = literalSegment (run ++ more) ++ tail := by
  cases more with
  | nil =>
    rw [List.append_nil]
    cases tail with
    | nil => rfl
    | cons s tail =>
      cases s with
      | literal text => exact absurd rfl (htail _ rfl)
      | param name => rfl
  | cons c more =>
    have hne : run ++ c :: more ≠ [] := List.append_ne_nil_of_right_ne_nil run (List.cons_ne_nil c more)
    rw [literalSegment_of_ne_nil (List.cons_ne_nil c more), literalSegment_of_ne_nil hne,
      List.singleton_append, prepend, String.toList_ofList]
    rfl

theorem Spells.prepend (h : Spells segments cs) (hrun : ∀ c ∈ run, isBrace c = false) :
    Spells (prepend run segments) (run ++ cs) := by
  cases h with
  | text hmore =>
    have hjoin := @prepend_literalSegment run cs [] nofun
    rw [List.append_nil, List.append_nil] at hjoin
    rw [hjoin]
    exact .text (List.forall_mem_append.mpr ⟨hrun, hmore⟩)
  | @group more name rest segments hmore hname h =>
    rw [prepend_literalSegment run more (by simp [Segment.param?]), ← List.append_assoc]
    exact .group (List.forall_mem_append.mpr ⟨hrun, hmore⟩) hname h

/-- Whatever is put together from segments is a template. -/
theorem spells_joined (h : ∀ s ∈ segments, s.WellFormed) :
    Spells (joined segments) (segments.flatMap Segment.chars) := by
  induction segments with
  | nil => exact spells_nil
  | cons s segments ih =>
    obtain ⟨hs, hrest⟩ := List.forall_mem_cons.mp h
    rw [List.flatMap_cons]
    cases s with
    | literal text => exact (ih hrest).prepend (wellFormed_literal_iff.mp hs)
    | param name =>
      have hgroup := @Spells.group [] _ _ _ nofun (wellFormed_param_iff.mp hs) (ih hrest)
      rw [String.ofList_toList] at hgroup
      simpa [joined, Segment.chars, literalSegment] using hgroup

theorem joined_eq_self (hfilled : .literal "" ∉ segments)
    (hapart : segments.IsChain fun s t => s.param? = none → t.param? ≠ none) :
    joined segments = segments := by
  induction segments with
  | nil => rfl
  | cons s segments ih =>
    rw [List.mem_cons, not_or] at hfilled
    rw [List.isChain_cons] at hapart
    have hsame := ih hfilled.2 hapart.2
    cases s with
    | param name => rw [joined, hsame]
    | literal text =>
      have hne : text.toList ≠ [] := by
        intro hnil
        exact hfilled.1 (by rw [String.toList_eq_nil_iff.mp hnil])
      have hjoin := prepend_literalSegment text.toList [] (fun t ht => hapart.1 t ht rfl)
      rw [literalSegment_nil, List.nil_append, List.append_nil, literalSegment_of_ne_nil hne,
        String.ofList_toList] at hjoin
      rw [joined, hsame, hjoin]
      rfl

theorem Decomposes.spells (h : Decomposes segments cs) : Spells segments cs := by
  have hspells := spells_joined h.wellFormed
  rwa [joined_eq_self h.filled h.apart, h.chars_eq] at hspells

theorem Decomposes.prepend (h : Decomposes segments cs) (hrun : ∀ c ∈ run, isBrace c = false)
    (hhead : ∀ s ∈ segments.head?, s.param? ≠ none) :
    Decomposes (literalSegment run ++ segments) (run ++ cs) := by
  by_cases hnil : run = []
  · rw [hnil]
    exact h
  · rw [literalSegment_of_ne_nil hnil, List.singleton_append]
    refine ⟨List.forall_mem_cons.mpr ⟨?_, h.wellFormed⟩, ?_, ?_, ?_⟩
    · rwa [wellFormed_literal_iff, String.toList_ofList]
    · rw [List.flatMap_cons, h.chars_eq, Segment.chars, String.toList_ofList]
    · rw [List.mem_cons, not_or]
      refine ⟨fun heq => hnil ?_, h.filled⟩
      rw [← String.toList_ofList (l := run), ← Segment.literal.inj heq]
      rfl
    · exact List.isChain_cons.mpr ⟨fun s hs _ => hhead s hs, h.apart⟩

theorem Spells.decomposes (h : Spells segments cs) : Decomposes segments cs := by
  have hnone : Decomposes [] [] := ⟨nofun, rfl, nofun, .nil⟩
  induction h with
  | @text run hrun => simpa using hnone.prepend hrun nofun
  | @group run name more segments hrun hname _ ih =>
    have hparam : Decomposes (.param (String.ofList name) :: segments) ('{' :: (name ++ '}' :: more)) := by
      refine ⟨List.forall_mem_cons.mpr ⟨?_, ih.wellFormed⟩, ?_, ?_, ?_⟩
      · rwa [wellFormed_param_iff, String.toList_ofList]
      · simp [ih.chars_eq, Segment.chars]
      · simpa using ih.filled
      · exact List.isChain_cons.mpr ⟨nofun, ih.apart⟩
    exact hparam.prepend hrun (by simp [Segment.param?])

theorem spells_iff_decomposes : Spells segments cs ↔ Decomposes segments cs :=
  ⟨Spells.decomposes, Decomposes.spells⟩

/-- An error is reported at the place of the literal. -/
theorem path_eq_error_iff {raw : String} {stop place : Location} {rest : List Token}
    {e : SyntaxError} :
    Tree.Parser.path stop (⟨.literal raw, place⟩ :: rest) = .error e ↔
      ∃ fault, parse raw = .error fault ∧ e = ⟨.malformedPath raw fault, place⟩ := by
  rw [Tree.Parser.path, Tree.Parser.literal]
  simp only [bind, Except.bind]
  cases parse raw with
  | error fault =>
    constructor
    · intro h
      cases h
      exact ⟨fault, rfl, rfl⟩
    · rintro ⟨fault', hfault, rfl⟩
      cases hfault
      rfl
  | ok template => exact ⟨nofun, nofun⟩

end

/-- A text is a template exactly if it is a concatenation of runs without braces and names between
braces.  The segments are then the concatenation that has no empty run and no two runs next to each
other.  Otherwise the error is at the place of the literal, and tells what is wrong with the first
brace that no template goes on with. -/
theorem parse_iff_decomposes (raw : String) :
    ((∃ path, parse raw = .ok path) ↔
      ∃ pieces : List Segment, (∀ s ∈ pieces, s.WellFormed) ∧
        pieces.flatMap Segment.chars = raw.toList) ∧
    (∀ path, parse raw = .ok path ↔ path.raw = raw ∧ Decomposes path.segments raw.toList) ∧
    ∀ (stop place : Location) (rest : List Token) (e : SyntaxError),
      Tree.Parser.path stop (⟨.literal raw, place⟩ :: rest) = .error e ↔
        ∃ segments front behind fault, raw.toList = front ++ behind ∧
          Decomposes segments front ∧ Breaks front.length behind fault ∧
          e = ⟨.malformedPath raw fault, place⟩ := by
  have hok : ∀ path, parse raw = .ok path ↔ path.raw = raw ∧ Decomposes path.segments raw.toList :=
    fun path => by rw [parse_eq_ok_iff, spells_iff_decomposes]
  refine ⟨⟨?_, ?_⟩, hok, fun stop place rest e => ?_⟩
  · rintro ⟨path, h⟩
    obtain ⟨-, hdecomposes⟩ := (hok path).mp h
    exact ⟨path.segments, hdecomposes.wellFormed, hdecomposes.chars_eq⟩
  · rintro ⟨pieces, hpieces, hchars⟩
    have hspells := spells_joined hpieces
    rw [hchars] at hspells
    exact ⟨⟨raw, joined pieces⟩, parse_eq_ok_iff.mpr ⟨rfl, hspells⟩⟩
  · simp only [path_eq_error_iff, parse_eq_error_iff, spells_iff_decomposes]
    constructor
    · rintro ⟨fault, ⟨segments, front, behind, hraw, hfront, hbreaks⟩, he⟩
      exact ⟨segments, front, behind, fault, hraw, hfront, hbreaks, he⟩
    · rintro ⟨segments, front, behind, fault, hraw, hfront, hbreaks, he⟩
      exact ⟨fault, ⟨segments, front, behind, hraw, hfront, hbreaks⟩, he⟩

end PathTemplate
end EndpointDsl
