import EndpointDsl.Path.Template
import Mathlib.Data.List.TakeWhile

/-!
Which texts are path templates.

A template is a run of text without braces, or such a run, a parameter between braces and a
template.  A text is read as one in a single way, since a parameter name holds no brace.
-/

namespace EndpointDsl

/-- A run ends where its property fails first. -/
theorem span_append {α : Type} {p : α → Bool} {run rest : List α} (hrun : ∀ a ∈ run, p a = true)
    (hrest : ∀ a ∈ rest.head?, p a = false) :
    (run ++ rest).takeWhile p = run ∧ (run ++ rest).dropWhile p = rest := by
  rw [List.takeWhile_append_of_pos hrun, List.dropWhile_append_of_pos hrun]
  cases rest with
  | nil => simp
  | cons a rest => simp [hrest a rfl]

namespace PathTemplate

/-- The text is a template of the segments. -/
inductive Spells : List Segment → List Char → Prop
  | text {run : List Char} (hrun : ∀ c ∈ run, isBrace c = false) : Spells (literalSegment run) run
  | group {run name more : List Char} {segments : List Segment}
      (hrun : ∀ c ∈ run, isBrace c = false) (hname : isParamName name = true)
      (h : Spells segments more) :
      Spells (literalSegment run ++ .param (String.ofList name) :: segments)
        (run ++ '{' :: (name ++ '}' :: more))

/-- Why no template goes on with the characters, which start at position `i`. -/
inductive Breaks (i : Nat) : List Char → PathFault → Prop
  | unmatched {rest : List Char} : Breaks i ('}' :: rest) (.unmatchedClose i)
  | unclosed {rest : List Char} (hclose : '}' ∉ rest) : Breaks i ('{' :: rest) (.unclosedOpen i)
  | nested {name rest : List Char} (hclose : '}' ∉ name) (hopen : '{' ∈ name) :
      Breaks i ('{' :: (name ++ '}' :: rest)) (.nestedOpen i)
  | invalid {name rest : List Char} (hclose : '}' ∉ name) (hopen : '{' ∉ name)
      (hname : isParamName name = false) :
      Breaks i ('{' :: (name ++ '}' :: rest)) (.invalidName (String.ofList name))

theorem not_brace_of_isIdentRest {c : Char} (h : isIdentRest c = true) : isBrace c = false := by
  rw [isBrace, Bool.or_eq_false_iff]
  refine ⟨beq_false_of_ne ?_, beq_false_of_ne ?_⟩ <;>
  · rintro rfl
    revert h
    decide

theorem isIdentRest_of_isIdentStart {c : Char} (h : isIdentStart c = true) :
    isIdentRest c = true := by
  simp only [isIdentStart, isIdentRest, Char.isAlphanum, Bool.or_eq_true] at h ⊢
  exact h.imp_left Or.inl

theorem isIdentRest_of_mem_isIdent {cs : List Char} (h : isIdent cs = true) {c : Char}
    (hmem : c ∈ cs) : isIdentRest c = true := by
  cases cs with
  | nil => cases hmem
  | cons first rest =>
    rw [isIdent, Bool.and_eq_true] at h
    rcases List.mem_cons.mp hmem with rfl | hmem
    · exact isIdentRest_of_isIdentStart h.1
    · exact List.all_eq_true.mp h.2 c hmem

theorem not_brace_of_mem_paramName {name : List Char} (h : isParamName name = true) {c : Char}
    (hmem : c ∈ name) : isBrace c = false := by
  rw [isParamName, Bool.or_eq_true, Bool.and_eq_true, beq_iff_eq] at h
  rcases h with h | ⟨hlast, h⟩
  · exact not_brace_of_isIdentRest (isIdentRest_of_mem_isIdent h hmem)
  · obtain ⟨front, rfl⟩ := List.getLast?_eq_some_iff.mp hlast
    rw [List.dropLast_concat] at h
    rcases List.mem_append.mp hmem with hmem | hmem
    · exact not_brace_of_isIdentRest (isIdentRest_of_mem_isIdent h hmem)
    · cases List.mem_singleton.mp hmem
      decide

theorem not_brace_of_mem_takeWhile {cs : List Char} {c : Char}
    (h : c ∈ cs.takeWhile (!isBrace ·)) : isBrace c = false := by
  simpa using List.mem_takeWhile_imp h

/-! ## A pair of braces at a time -/

section

variable {run name rest : List Char}

/-- What stands in front of a brace is taken as a whole. -/
theorem span_run (hrun : ∀ c ∈ run, isBrace c = false) (hrest : ∀ c ∈ rest.head?, isBrace c = true) :
    (run ++ rest).takeWhile (!isBrace ·) = run ∧ (run ++ rest).dropWhile (!isBrace ·) = rest :=
  span_append (fun c hc => by rw [hrun c hc]; rfl) fun c hc => by rw [hrest c hc]; rfl

/-- What stands between braces ends at the first closing one. -/
theorem span_name (hclose : '}' ∉ name) (more : List Char) :
    (name ++ '}' :: more).takeWhile (· != '}') = name ∧
      (name ++ '}' :: more).dropWhile (· != '}') = '}' :: more := by
  refine span_append (fun c hc => ?_) fun c hc => by cases hc; rfl
  rw [bne_iff_ne]
  rintro rfl
  exact hclose hc

theorem segmentsFrom_run (hrun : ∀ c ∈ run, isBrace c = false) (i : Nat) :
    segmentsFrom i run = .ok (literalSegment run) := by
  obtain ⟨htake, hdrop⟩ := @span_run run [] hrun nofun
  rw [List.append_nil] at htake hdrop
  rw [segmentsFrom]
  split
  · rw [htake]
  · next heq => cases hdrop.symm.trans heq

theorem segmentsFrom_close (hrun : ∀ c ∈ run, isBrace c = false) (rest : List Char) (i : Nat) :
    segmentsFrom i (run ++ '}' :: rest) = .error (.unmatchedClose (i + run.length)) := by
  obtain ⟨htake, hdrop⟩ := @span_run run ('}' :: rest) hrun fun c hc => by cases hc; rfl
  rw [segmentsFrom]
  split
  · next heq => cases hdrop.symm.trans heq
  · next c rest' heq =>
    cases hdrop.symm.trans heq
    rw [if_pos rfl, htake]

theorem segmentsFrom_open (hrun : ∀ c ∈ run, isBrace c = false) (hrest : '}' ∉ rest) (i : Nat) :
    segmentsFrom i (run ++ '{' :: rest) = .error (.unclosedOpen (i + run.length)) := by
  obtain ⟨htake, hdrop⟩ := @span_run run ('{' :: rest) hrun fun c hc => by cases hc; rfl
  have hnone : rest.dropWhile (· != '}') = [] := by
    rw [List.dropWhile_eq_nil_iff]
    intro c hc
    rw [bne_iff_ne]
    rintro rfl
    exact hrest hc
  rw [segmentsFrom]
  split
  · next heq => cases hdrop.symm.trans heq
  · next c rest' heq =>
    cases hdrop.symm.trans heq
    rw [if_neg (by decide)]
    simp only
    split
    · rw [htake]
    · next heq' => cases hnone.symm.trans heq'

/-- A pair of braces behind a run is a parameter, or at fault. -/
theorem segmentsFrom_group (hrun : ∀ c ∈ run, isBrace c = false) (hclose : '}' ∉ name)
    (more : List Char) (i : Nat) :
    segmentsFrom i (run ++ '{' :: (name ++ '}' :: more)) =
      if name.contains '{' then .error (.nestedOpen (i + run.length))
      else if isParamName name then
        (segmentsFrom (i + run.length + name.length + 2) more).map
          (literalSegment run ++ .param (String.ofList name) :: ·)
      else .error (.invalidName (String.ofList name)) := by
  obtain ⟨htake, hdrop⟩ :=
    @span_run run ('{' :: (name ++ '}' :: more)) hrun fun c hc => by cases hc; rfl
  obtain ⟨htakeName, hdropName⟩ := span_name hclose more
  rw [segmentsFrom]
  split
  · next heq => cases hdrop.symm.trans heq
  · next c rest heq =>
    cases hdrop.symm.trans heq
    rw [if_neg (by decide)]
    simp only
    split
    · next heq' => cases hdropName.symm.trans heq'
    · next c more' heq' =>
      cases hdropName.symm.trans heq'
      rw [htake, htakeName]
      cases segmentsFrom (i + run.length + name.length + 2) more <;> rfl

end

theorem close_not_mem_paramName {name : List Char} (h : isParamName name = true) : '}' ∉ name :=
  fun hmem => by cases not_brace_of_mem_paramName h hmem

theorem contains_open_paramName {name : List Char} (h : isParamName name = true) :
    name.contains '{' = false := by
  rw [Bool.eq_false_iff]
  intro hmem
  cases not_brace_of_mem_paramName h (List.contains_iff_mem.mp hmem)

/-! ## Whole texts -/

/-- A brace opens a parameter, or is at fault. -/
theorem breaks_or_group {c : Char} (hbrace : isBrace c = true) (rest : List Char) :
    (∀ i, ∃ fault, Breaks i (c :: rest) fault) ∨
      ∃ name more, c :: rest = '{' :: (name ++ '}' :: more) ∧ isParamName name = true := by
  rw [isBrace, Bool.or_eq_true, beq_iff_eq, beq_iff_eq] at hbrace
  rcases hbrace with rfl | rfl
  · by_cases hclose : '}' ∈ rest
    · obtain ⟨name, more, rfl, hname⟩ := List.eq_append_cons_of_mem hclose
      by_cases hopen : '{' ∈ name
      · exact Or.inl fun i => ⟨_, .nested hname hopen⟩
      by_cases hparam : isParamName name = true
      · exact Or.inr ⟨name, more, rfl, hparam⟩
      · exact Or.inl fun i => ⟨_, .invalid hname hopen (Bool.eq_false_iff.mpr hparam)⟩
    · exact Or.inl fun i => ⟨_, .unclosed hclose⟩
  · exact Or.inl fun i => ⟨_, .unmatched⟩

/-- A text is a template, or a template in front of a brace that is at fault. -/
theorem exists_spells (cs : List Char) :
    ∃ segments front rest, cs = front ++ rest ∧ Spells segments front ∧
      (rest = [] ∨ ∀ i, ∃ fault, Breaks i rest fault) := by
  induction hn : cs.length using Nat.strongRecOn generalizing cs with
  | ind n ih =>
    obtain ⟨run, rest, rfl, hrun, hstop⟩ : ∃ run rest, cs = run ++ rest ∧
        (∀ c ∈ run, isBrace c = false) ∧ ∀ c ∈ rest.head?, isBrace c = true := by
      refine ⟨cs.takeWhile (!isBrace ·), cs.dropWhile (!isBrace ·),
        List.takeWhile_append_dropWhile.symm, fun c hc => not_brace_of_mem_takeWhile hc, ?_⟩
      intro c hc
      have hnot := List.head?_dropWhile_not (!isBrace ·) cs
      rw [Option.mem_def.mp hc] at hnot
      simpa using hnot
    cases rest with
    | nil => exact ⟨_, run, [], rfl, .text hrun, Or.inl rfl⟩
    | cons c rest =>
      rcases breaks_or_group (hstop c rfl) rest with hbreaks | ⟨name, more, hgroup, hname⟩
      · exact ⟨_, run, c :: rest, rfl, .text hrun, Or.inr hbreaks⟩
      · rw [hgroup] at hn ⊢
        have hlength : more.length < n := by
          simp only [List.length_append, List.length_cons] at hn
          omega
        obtain ⟨segments, front, rest', rfl, hspells, hend⟩ := ih more.length hlength more rfl
        exact ⟨_, run ++ '{' :: (name ++ '}' :: front), rest', by simp,
          .group hrun hname hspells, hend⟩

section

variable {segments : List Segment} {cs front rest : List Char} {fault : PathFault} {i : Nat}

theorem segmentsFrom_of_spells (h : Spells segments cs) (i : Nat) :
    segmentsFrom i cs = .ok segments := by
  induction h generalizing i with
  | text hrun => exact segmentsFrom_run hrun i
  | group hrun hname _ ih =>
    rw [segmentsFrom_group hrun (close_not_mem_paramName hname), contains_open_paramName hname,
      if_neg (by decide), if_pos hname, ih]
    rfl

theorem segmentsFrom_of_breaks (h : Spells segments front)
    (hbreaks : Breaks (i + front.length) rest fault) :
    segmentsFrom i (front ++ rest) = .error fault := by
  induction h generalizing i with
  | @text run hrun =>
    cases hbreaks with
    | unmatched => exact segmentsFrom_close hrun _ i
    | unclosed hclose => exact segmentsFrom_open hrun hclose i
    | nested hclose hopen =>
      rw [segmentsFrom_group hrun hclose, if_pos (List.contains_iff_mem.mpr hopen)]
    | invalid hclose hopen hname =>
      rw [segmentsFrom_group hrun hclose, if_neg (mt List.contains_iff_mem.mp hopen), hname,
        if_neg (by decide)]
  | @group run name more segments hrun hname _ ih =>
    have hplace : i + (run ++ '{' :: (name ++ '}' :: more)).length =
        i + run.length + name.length + 2 + more.length := by
      simp only [List.length_append, List.length_cons]
      omega
    rw [hplace] at hbreaks
    rw [List.append_assoc, List.cons_append, List.append_assoc, List.cons_append,
      segmentsFrom_group hrun (close_not_mem_paramName hname), contains_open_paramName hname,
      if_neg (by decide), if_pos hname, ih hbreaks]
    rfl

theorem segmentsFrom_eq_ok_iff : segmentsFrom i cs = .ok segments ↔ Spells segments cs := by
  constructor
  · intro h
    obtain ⟨found, front, rest, rfl, hspells, rfl | hend⟩ := exists_spells cs
    · rw [List.append_nil] at h ⊢
      cases h.symm.trans (segmentsFrom_of_spells hspells i)
      exact hspells
    · obtain ⟨fault, hbreaks⟩ := hend (i + front.length)
      cases h.symm.trans (segmentsFrom_of_breaks hspells hbreaks)
  · exact fun h => segmentsFrom_of_spells h i

theorem segmentsFrom_eq_error_iff :
    segmentsFrom i cs = .error fault ↔
      ∃ segments front rest, cs = front ++ rest ∧ Spells segments front ∧
        Breaks (i + front.length) rest fault := by
  constructor
  · intro h
    obtain ⟨segments, front, rest, rfl, hspells, rfl | hend⟩ := exists_spells cs
    · rw [List.append_nil, segmentsFrom_of_spells hspells i] at h
      cases h
    · obtain ⟨fault', hbreaks⟩ := hend (i + front.length)
      cases h.symm.trans (segmentsFrom_of_breaks hspells hbreaks)
      exact ⟨segments, front, rest, rfl, hspells, hbreaks⟩
  · rintro ⟨segments, front, rest, rfl, hspells, hbreaks⟩
    exact segmentsFrom_of_breaks hspells hbreaks

theorem parse_eq_ok_iff {raw : String} {path : PathTemplate} :
    parse raw = .ok path ↔ path.raw = raw ∧ Spells path.segments raw.toList := by
  rw [parse]
  constructor
  · intro h
    cases hsegments : segmentsFrom 0 raw.toList with
    | error fault => rw [hsegments] at h; cases h
    | ok segments =>
      rw [hsegments] at h
      cases h
      exact ⟨rfl, segmentsFrom_eq_ok_iff.mp hsegments⟩
  · rintro ⟨rfl, h⟩
    rw [segmentsFrom_of_spells h]
    rfl

theorem parse_eq_error_iff {raw : String} :
    parse raw = .error fault ↔
      ∃ segments front rest, raw.toList = front ++ rest ∧ Spells segments front ∧
        Breaks front.length rest fault := by
  have hiff := @segmentsFrom_eq_error_iff raw.toList fault 0
  simp only [Nat.zero_add] at hiff
  rw [← hiff, parse]
  cases segmentsFrom 0 raw.toList with
  | error fault' =>
    constructor <;>
    · intro h
      cases h
      rfl
  | ok segments =>
    constructor <;>
    · intro h
      cases h

end

end PathTemplate
end EndpointDsl
