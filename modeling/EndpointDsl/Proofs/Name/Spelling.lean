import EndpointDsl.Name.Identifier
import EndpointDsl.Proofs.Name.Words
import EndpointDsl.Proofs.Path.Template
import Mathlib

/-!
The names of a generated module are identifiers of the target language.

Splitting into words, changing the letter case, collapsing underscores and joining the pieces keep
to letters, digits and underscores, so what is left to show of each name is how it starts and that
it is no keyword.  No keyword holds an underscore, and most names hold one.
-/

namespace EndpointDsl
namespace Name

/-- An ASCII identifier that is no keyword. -/
structure IsLegal (name : String) : Prop where
  ident : isIdent name.toList = true
  free : name ∉ keywords

/-- Every character may stand inside an identifier. -/
def WordChars (s : String) : Prop := ∀ c ∈ s.toList, isIdentRest c = true

instance : DecidablePred WordChars := fun s => List.decidableBAll _ s.toList

/-! ## Texts of word characters -/

section

variable {s t separator : String} {texts : List String} {cs : List Char} {c : Char}

theorem wordChars_append : WordChars (s ++ t) ↔ WordChars s ∧ WordChars t := by
  simp only [WordChars, String.toList_append, List.forall_mem_append]

theorem wordChars_ofList : WordChars (String.ofList cs) ↔ ∀ c ∈ cs, isIdentRest c = true := by
  rw [WordChars, String.toList_ofList]

theorem wordChars_join (h : ∀ s ∈ texts, WordChars s) : WordChars (String.join texts) := by
  intro c hc
  rw [String.toList_join] at hc
  obtain ⟨s, hs, hmem⟩ := List.mem_flatMap.mp hc
  exact h s hs c hmem

theorem wordChars_intercalate (hseparator : WordChars separator) (h : ∀ s ∈ texts, WordChars s) :
    WordChars (String.intercalate separator texts) := by
  induction texts with
  | nil =>
    rw [String.intercalate_nil]
    decide
  | cons first rest ih =>
    obtain ⟨hfirst, hrest⟩ := List.forall_mem_cons.mp h
    cases rest with
    | nil => rwa [String.intercalate_singleton]
    | cons second others =>
      rw [String.intercalate_cons_cons, wordChars_append, wordChars_append]
      exact ⟨⟨hfirst, hseparator⟩, ih hrest⟩

theorem wordChars_of_isIdent (h : isIdent s.toList = true) : WordChars s :=
  fun _ hc => PathTemplate.isIdentRest_of_mem_isIdent h hc

theorem isIdentRest_of_isAlphanum (h : c.isAlphanum = true) : isIdentRest c = true := by
  rw [isIdentRest, h, Bool.true_or]

/-- Word characters after a first one that is no digit are an identifier. -/
theorem isIdent_of_wordChars (h : WordChars s) {rest : List Char} (hs : s.toList = c :: rest)
    (hstart : isIdentStart c = true) : isIdent s.toList = true := by
  rw [WordChars, hs] at h
  rw [hs, isIdent, hstart, Bool.true_and]
  exact List.all_eq_true.mpr fun d hd => h d (List.mem_cons_of_mem c hd)

theorem not_mem_keywords (h : '_' ∈ s.toList) : s ∉ keywords := by
  have hkeywords : ∀ word ∈ keywords, '_' ∉ word.toList := by decide
  exact fun hmem => hkeywords s hmem h

end

/-! ## Words -/

section

variable {c : Char} {cs w : List Char} {name : String}

theorem isAlphanum_of_isLow (h : Casing.isLow c = true) : c.isAlphanum = true := by
  simp only [Casing.isLow, Bool.or_eq_true] at h
  simp only [Char.isAlphanum, Char.isAlpha, Bool.or_eq_true]
  exact h.imp_left Or.inr

theorem isAlphanum_of_isUpper (h : c.isUpper = true) : c.isAlphanum = true := by
  rw [Char.isAlphanum, Char.isAlpha, h, Bool.true_or, Bool.true_or]

theorem isAlphanum_of_mem_rawWords (hw : w ∈ Casing.rawWords cs) (hc : c ∈ w) :
    c.isAlphanum = true := by
  obtain ⟨-, hword⟩ := Casing.mem_of_mem_rawWords hw hc
  rw [Casing.inWord, Bool.or_eq_true] at hword
  rcases hword with hlow | hupper
  · exact isAlphanum_of_isLow hlow
  · exact isAlphanum_of_isUpper hupper

theorem isIdentRest_toLower (h : isIdentRest c = true) : isIdentRest c.toLower = true := by
  by_cases hupper : c.isUpper = true
  · have halpha : c.isAlpha = true := by rw [Char.isAlpha, hupper, Bool.true_or]
    rw [isIdentRest, Char.isAlphanum, Char.isAlpha_toLower_eq_isAlpha, halpha]
    rfl
  · rwa [Char.toLower_eq_of_not_isUpper hupper]

theorem isIdentRest_toUpper (h : isIdentRest c = true) : isIdentRest c.toUpper = true := by
  by_cases hlower : c.isLower = true
  · have halpha : c.isAlpha = true := by rw [Char.isAlpha, hlower, Bool.or_true]
    rw [isIdentRest, Char.isAlphanum, Char.isAlpha_toUpper_eq_isAlpha, halpha]
    rfl
  · rwa [Char.toUpper_eq_of_not_isLower hlower]

theorem wordChars_of_mem_words {word : String} (h : word ∈ Casing.words name) : WordChars word := by
  obtain ⟨w, hw, rfl⟩ := List.mem_map.mp h
  rw [wordChars_ofList]
  intro c hc
  obtain ⟨d, hd, rfl⟩ := List.mem_map.mp hc
  exact isIdentRest_toLower (isIdentRest_of_isAlphanum (isAlphanum_of_mem_rawWords hw hd))

theorem wordChars_capitalize {word : String} (h : WordChars word) :
    WordChars (Casing.capitalize word) := by
  unfold Casing.capitalize
  split
  · decide
  · next c rest hword =>
    rw [WordChars, hword] at h
    obtain ⟨hc, hrest⟩ := List.forall_mem_cons.mp h
    exact wordChars_ofList.mpr (List.forall_mem_cons.mpr ⟨isIdentRest_toUpper hc, hrest⟩)

theorem wordChars_toSnake (h : WordChars name) : WordChars (Casing.toSnake name) := by
  unfold Casing.toSnake Casing.Style.apply
  split
  · exact h
  · exact wordChars_intercalate (by decide) fun word hword => wordChars_of_mem_words hword

theorem wordChars_toPascal (h : WordChars name) : WordChars (Casing.toPascal name) := by
  unfold Casing.toPascal Casing.Style.apply
  split
  · exact h
  · exact wordChars_join (List.forall_mem_map.mpr fun word hword =>
      wordChars_capitalize (wordChars_of_mem_words hword))

end

/-! ## Pieces of a path and modules -/

section

variable {cs piece : List Char}

theorem mem_of_mem_trimUnderscores {c : Char} (h : c ∈ trimUnderscores cs) : c ∈ cs :=
  (List.dropWhile_sublist _).subset (List.mem_reverse.mp
    ((List.dropWhile_sublist _).subset (List.mem_reverse.mp h)))

/-- What is left of a text starts where its leading underscores end. -/
theorem head?_trimUnderscores {c : Char} (h : (trimUnderscores cs).head? = some c) : c ≠ '_' := by
  have hsuffix : (trimUnderscores cs) <+: cs.dropWhile (· == '_') := by
    rw [← List.reverse_suffix, trimUnderscores, List.reverse_reverse]
    exact List.dropWhile_suffix _
  obtain ⟨tail, htail⟩ := hsuffix
  have hhead : (cs.dropWhile (· == '_')).head? = some c := by
    rw [← htail, List.head?_append, h, Option.some_or]
  have hstop := List.head?_dropWhile_not (· == '_') cs
  rw [hhead] at hstop
  rintro rfl
  cases hstop

theorem collapse_sublist (cs : List Char) : (collapse cs).Sublist cs := by
  fun_induction collapse cs with
  | case1 rest ih => exact ih.cons _
  | case2 c rest _ ih => exact ih.cons_cons c
  | case3 => exact .slnil

theorem isIdentRest_of_mem_sanitize {c : Char} (h : c ∈ sanitize piece) : isIdentRest c = true := by
  obtain ⟨d, -, rfl⟩ := List.mem_map.mp ((collapse_sublist _).subset (mem_of_mem_trimUnderscores h))
  split
  · next hword => exact hword
  · rfl

theorem wordChars_of_mem_literalParts {text part : String} (h : part ∈ literalParts text) :
    WordChars part := by
  obtain ⟨p, hp, hpart⟩ := List.mem_filterMap.mp h
  obtain ⟨piece, -, rfl⟩ := List.mem_map.mp hp
  split at hpart
  · cases hpart
  · cases hpart
    refine wordChars_ofList.mpr fun c hc => ?_
    obtain ⟨d, hd, rfl⟩ := List.mem_map.mp hc
    exact isIdentRest_toLower (isIdentRest_of_mem_sanitize hd)

/-- A word that starts with no underscore becomes a name that starts with a letter: a prefix is put
before a digit and before a keyword. -/
theorem prefixed_spec {stem : String} (hword : WordChars stem) {c : Char} {rest : List Char}
    (hstem : stem.toList = c :: rest) (hc : c ≠ '_') {name : String}
    (hname : name = if (stem.toList.head?.any Char.isDigit) || keywords.contains stem
      then "endpoint_" ++ stem else stem) :
    WordChars name ∧ name ∉ keywords ∧ ∃ d more, name.toList = d :: more ∧ d.isAlpha = true := by
  by_cases hprefix : ((stem.toList.head?.any Char.isDigit) || keywords.contains stem) = true
  · rw [hname, if_pos hprefix]
    refine ⟨wordChars_append.mpr ⟨by decide, hword⟩, not_mem_keywords ?_, ?_⟩
    · rw [String.toList_append]
      exact List.mem_append_left _ (by decide)
    · rw [String.toList_append]
      exact ⟨'e', _, rfl, rfl⟩
  · rw [hname, if_neg hprefix]
    rw [Bool.or_eq_true, not_or, List.contains_iff_mem, hstem] at hprefix
    have hdigit : c.isDigit = false := Bool.eq_false_iff.mpr hprefix.1
    have hrest : isIdentRest c = true := hword c (hstem ▸ List.mem_cons_self)
    rw [isIdentRest, Char.isAlphanum, hdigit, beq_false_of_ne hc, Bool.or_false,
      Bool.or_false] at hrest
    exact ⟨hword, hprefix.2, c, rest, hstem, hrest⟩

/-- A module is named after its endpoint by an identifier that starts with a letter. -/
theorem moduleStem_spec (endpoint : String) :
    WordChars (moduleStem endpoint) ∧ moduleStem endpoint ∉ keywords ∧
      ∃ c rest, (moduleStem endpoint).toList = c :: rest ∧ c.isAlpha = true := by
  generalize hbase : sanitize (Casing.toSnake endpoint).toList = base
  cases base with
  | nil =>
    have hword : WordChars "endpoint" := by decide
    refine prefixed_spec hword (c := 'e') rfl (by decide) ?_
    rw [moduleStem, hbase]
    rfl
  | cons c rest =>
    have hword : WordChars (String.ofList (c :: rest)) :=
      wordChars_ofList.mpr fun d hd => isIdentRest_of_mem_sanitize (hbase ▸ hd)
    have hfirst : (sanitize (Casing.toSnake endpoint).toList).head? = some c := by
      rw [hbase]
      rfl
    have hhead : c ≠ '_' := head?_trimUnderscores hfirst
    have hfull : (String.ofList (c :: rest)).isEmpty = false := by simp
    refine prefixed_spec hword String.toList_ofList hhead ?_
    rw [moduleStem, hbase]
    simp only [hfull, Bool.false_eq_true, if_false]

theorem isLegal_moduleName (endpoint : String) (isPublic : Bool) :
    IsLegal (moduleName endpoint isPublic) := by
  obtain ⟨hword, hfree, c, rest, hlist, halpha⟩ := moduleStem_spec endpoint
  unfold moduleName
  generalize moduleStem endpoint = stem at hword hfree hlist
  split
  · refine ⟨isIdent_of_wordChars hword hlist ?_, hfree⟩
    rw [isIdentStart, halpha, Bool.true_or]
  · have hlist' : ("_" ++ stem).toList = '_' :: c :: rest := by
      rw [String.toList_append, hlist]
      rfl
    have hword' : WordChars ("_" ++ stem) := wordChars_append.mpr ⟨by decide, hword⟩
    refine ⟨isIdent_of_wordChars hword' hlist' rfl, not_mem_keywords ?_⟩
    rw [hlist']
    exact List.mem_cons_self

/-- Only the modules of endpoints that are not public start with an underscore. -/
theorem head?_moduleName (endpoint : String) (isPublic : Bool) :
    (moduleName endpoint isPublic).toList.head? = some '_' ↔ isPublic = false := by
  obtain ⟨-, -, c, rest, hlist, halpha⟩ := moduleStem_spec endpoint
  unfold moduleName
  generalize moduleStem endpoint = stem at hlist
  split
  · next hpublic =>
    rw [hlist, List.head?_cons, Option.some.injEq, hpublic]
    refine iff_of_false ?_ (by decide)
    rintro rfl
    cases halpha
  · next hprivate =>
    rw [String.toList_append, Bool.eq_false_iff.mpr hprivate]
    exact iff_of_true rfl rfl

end

/-! ## Methods and classes -/

section

variable {path : PathTemplate}

theorem lowerName_chars (verb : Verb) : ∀ c ∈ verb.lowerName.toList, c.isLower = true := by
  refine List.all_eq_true.mp ?_
  cases verb <;> rfl

theorem collapse_append {run rest : List Char} (h : '_' ∉ run) :
    collapse (run ++ rest) = run ++ collapse rest := by
  induction run with
  | nil => rfl
  | cons c run ih =>
    rw [List.mem_cons, not_or] at h
    rw [List.cons_append, collapse, ih h.2, List.cons_append]
    rintro more rfl -
    exact h.1 rfl

theorem exists_collapse_underscore (rest : List Char) :
    ∃ tail, collapse ('_' :: rest) = '_' :: tail := by
  induction rest with
  | nil => exact ⟨[], rfl⟩
  | cons c rest ih =>
    by_cases hc : c = '_'
    · rw [hc, collapse]
      exact ih
    · refine ⟨collapse (c :: rest), ?_⟩
      rw [collapse]
      rintro more - heq
      exact hc (List.cons.inj heq).1

theorem pathParts_ne_nil (path : PathTemplate) : ∃ first more, pathParts path = first :: more := by
  unfold pathParts
  split
  · exact ⟨_, _, rfl⟩
  · next parts hne => exact List.exists_cons_of_ne_nil hne

/-- The identifier of a method is its verb, an underscore and what the path gives. -/
theorem methodIdentifier_eq (verb : Verb) (path : PathTemplate) :
    ∃ tail, (methodIdentifier verb path).toList = verb.lowerName.toList ++ '_' :: tail := by
  obtain ⟨first, more, hparts⟩ := pathParts_ne_nil path
  obtain ⟨tail, htail⟩ := exists_collapse_underscore (String.intercalate "_" (first :: more)).toList
  have hverb : '_' ∉ verb.lowerName.toList := by
    intro hmem
    cases lowerName_chars verb '_' hmem
  refine ⟨tail, ?_⟩
  rw [methodIdentifier, String.toList_ofList, hparts, String.intercalate_cons_cons,
    String.toList_append, String.toList_append, List.append_assoc, collapse_append hverb]
  exact congrArg _ htail

theorem wordChars_methodIdentifier (verb : Verb) (h : ∀ p ∈ path.parameters, WordChars p) :
    WordChars (methodIdentifier verb path) := by
  have hsegments : ∀ part ∈ path.segments.flatMap segmentParts, WordChars part := by
    intro part hpart
    obtain ⟨segment, hsegment, hmem⟩ := List.mem_flatMap.mp hpart
    cases segment with
    | literal text => exact wordChars_of_mem_literalParts hmem
    | param p =>
      rw [List.mem_singleton.mp hmem, wordChars_append]
      exact ⟨by decide, wordChars_toSnake (h p (List.mem_filterMap.mpr ⟨_, hsegment, rfl⟩))⟩
  have hparts : ∀ part ∈ pathParts path, WordChars part := by
    unfold pathParts
    split
    · exact List.forall_mem_singleton.mpr (by decide)
    · exact hsegments
  have hverb : WordChars verb.lowerName := by cases verb <;> decide
  refine wordChars_ofList.mpr fun c hc => ?_
  exact wordChars_intercalate (by decide) (List.forall_mem_cons.mpr ⟨hverb, hparts⟩) c
    ((collapse_sublist _).subset hc)

theorem rawWords_verb (verb : Verb) (tail : List Char) :
    Casing.rawWords (verb.lowerName.toList ++ '_' :: tail) =
      verb.lowerName.toList :: Casing.rawWords ('_' :: tail) := by
  have hlow : ∀ c ∈ verb.lowerName.toList, Casing.isLow c = true := fun c hc => by
    rw [Casing.isLow, lowerName_chars verb c hc, Bool.true_or]
  obtain ⟨c, rest, hverb⟩ : ∃ c rest, verb.lowerName.toList = c :: rest := by
    cases verb <;> exact ⟨_, _, rfl⟩
  rw [hverb] at hlow ⊢
  obtain ⟨hc, hrest⟩ := List.forall_mem_cons.mp hlow
  have hbreak : ∀ d ∈ ('_' :: tail).head?, Casing.isLow d = false := by
    rintro _ ⟨⟩
    rfl
  obtain ⟨htake, hdrop⟩ := span_append hrest hbreak
  rw [List.cons_append, Casing.rawWords, if_pos hc, htake, hdrop]

theorem map_toLower_lowerName (verb : Verb) :
    String.ofList (verb.lowerName.toList.map Char.toLower) = verb.lowerName := by
  cases verb <;> decide

/-- The verb as class names start with it. -/
def verbPrefix (verb : Verb) : String := Casing.capitalize verb.lowerName

/-- The name of a class starts with the verb of its method. -/
theorem className_eq (verb : Verb) (path : PathTemplate) (item : String) :
    ∃ middle, className verb path item = verbPrefix verb ++ (middle ++ item) := by
  obtain ⟨tail, htail⟩ := methodIdentifier_eq verb path
  have hwords : Casing.words (methodIdentifier verb path) = verb.lowerName ::
      (Casing.rawWords ('_' :: tail)).map fun w => String.ofList (w.map Char.toLower) := by
    rw [Casing.words, htail, rawWords_verb, List.map_cons, map_toLower_lowerName]
  refine ⟨String.join (((Casing.rawWords ('_' :: tail)).map fun w =>
    String.ofList (w.map Char.toLower)).map Casing.capitalize), ?_⟩
  rw [className, Casing.toPascal, Casing.Style.apply, hwords, ← String.append_assoc]
  show String.join (verbPrefix verb :: _) ++ item = _
  rw [String.join_cons]

theorem wordChars_className (verb : Verb) {item : String} (h : ∀ p ∈ path.parameters, WordChars p)
    (hitem : WordChars item) : WordChars (className verb path item) :=
  wordChars_append.mpr ⟨wordChars_toPascal (wordChars_methodIdentifier verb h), hitem⟩

theorem isUpper_of_head?_verbPrefix (verb : Verb) {rest : String} {c : Char}
    (h : (verbPrefix verb ++ rest).toList.head? = some c) : c.isUpper = true := by
  rw [String.toList_append] at h
  cases verb <;> (cases h; rfl)

theorem isUpper_of_head?_className {verb : Verb} {item : String} {c : Char}
    (h : (className verb path item).toList.head? = some c) : c.isUpper = true := by
  obtain ⟨middle, hname⟩ := className_eq verb path item
  rw [hname] at h
  exact isUpper_of_head?_verbPrefix verb h

/-- No verb in front of a name makes one of the given names, if it starts none of them. -/
theorem verbPrefix_append_not_mem {names : List String}
    (hnames : ∀ verb ∈ Verb.all, ∀ name ∈ names,
      (verbPrefix verb).toList.isPrefixOf name.toList = false) (verb : Verb) (rest : String) :
    verbPrefix verb ++ rest ∉ names := by
  intro hmem
  have hverb : verb ∈ Verb.all := by cases verb <;> decide
  have hnot := hnames verb hverb _ hmem
  rw [String.toList_append, Bool.eq_false_iff] at hnot
  exact hnot (List.isPrefixOf_iff_prefix.mpr (List.prefix_append _ _))

theorem isLegal_className (verb : Verb) {item : String} (h : ∀ p ∈ path.parameters, WordChars p)
    (hitem : WordChars item) : IsLegal (className verb path item) := by
  have hword := wordChars_className verb h hitem
  obtain ⟨middle, hname⟩ := className_eq verb path item
  constructor
  · cases hlist : (className verb path item).toList with
    | nil =>
      rw [hname, String.toList_append] at hlist
      cases verb <;> cases hlist
    | cons c rest =>
      have hupper := isUpper_of_head?_className (c := c) (by rw [hlist]; rfl)
      rw [← hlist]
      refine isIdent_of_wordChars hword hlist ?_
      rw [isIdentStart, Char.isAlpha, hupper, Bool.true_or, Bool.true_or]
  · rw [hname]
    exact verbPrefix_append_not_mem (by decide) verb _

end

/-! ## Attributes -/

theorem isDigitForm_of_isDigit {c : Char} (h : c.isDigit = true) : Text.isDigitForm c = true := by
  simp only [Char.isDigit, ge_iff_le, Bool.and_eq_true, decide_eq_true_eq,
    UInt32.le_iff_toNat_le] at h
  refine List.any_eq_true.mpr ⟨(0x30, 0x39), List.mem_cons_self, ?_⟩
  rw [Bool.and_eq_true, decide_eq_true_eq, decide_eq_true_eq]
  exact h

/-- An attribute starts with a letter, before reserved names are marked. -/
theorem attributeStem_spec {name : String} (h : WordChars name) :
    WordChars (attributeStem name) ∧
      ∃ c rest, (attributeStem name).toList = c :: rest ∧ c.isAlpha = true := by
  unfold attributeStem
  split
  · exact ⟨by decide, 'f', _, rfl, rfl⟩
  · next c rest hrest =>
    have hchars : ∀ d ∈ c :: rest, isIdentRest d = true := by
      rw [← hrest]
      exact fun d hd => h d ((List.dropWhile_sublist _).subset hd)
    have hne : c ≠ '_' := by
      have hstop := List.head?_dropWhile_not (· == '_') name.toList
      rw [hrest] at hstop
      rintro rfl
      cases hstop
    split
    · refine ⟨wordChars_append.mpr ⟨by decide, wordChars_ofList.mpr hchars⟩, ?_⟩
      rw [String.toList_append]
      exact ⟨'f', _, rfl, rfl⟩
    · next hform =>
      have hdigit : c.isDigit = false := Bool.eq_false_iff.mpr (mt isDigitForm_of_isDigit hform)
      have hfirst := hchars c List.mem_cons_self
      rw [isIdentRest, Char.isAlphanum, hdigit, beq_false_of_ne hne, Bool.or_false,
        Bool.or_false] at hfirst
      exact ⟨wordChars_ofList.mpr hchars, c, rest, String.toList_ofList, hfirst⟩

/-- A declared name becomes an attribute that starts with a letter and is no keyword. -/
theorem attributeName_spec {name : String} (h : WordChars name) :
    IsLegal (attributeName name) ∧
      ∃ c rest, (attributeName name).toList = c :: rest ∧ c.isAlpha = true := by
  obtain ⟨hword, c, rest, hlist, halpha⟩ := attributeStem_spec h
  have hstart : isIdentStart c = true := by rw [isIdentStart, halpha, Bool.true_or]
  unfold attributeName
  generalize attributeStem name = stem at hword hlist
  simp only
  split
  · have hlist' : (stem ++ "_").toList = c :: (rest ++ ['_']) := by
      rw [String.toList_append, hlist]
      rfl
    have hword' : WordChars (stem ++ "_") := wordChars_append.mpr ⟨hword, by decide⟩
    refine ⟨⟨isIdent_of_wordChars hword' hlist' hstart, not_mem_keywords ?_⟩, c, _, hlist', halpha⟩
    rw [hlist']
    exact List.mem_cons_of_mem c (List.mem_append_right rest List.mem_cons_self)
  · next hplain =>
    refine ⟨⟨isIdent_of_wordChars hword hlist hstart, fun hmem => hplain ?_⟩, c, rest, hlist,
      halpha⟩
    rw [isReserved, List.contains_iff_mem.mpr hmem]
    rfl

end Name
end EndpointDsl
