import EndpointDsl.Proofs.Lists
import EndpointDsl.Proofs.Path.Template
import EndpointDsl.Wire.Uri

/-!
What templates and queries become in a URI.

A template is filled segment by segment: braces stand only around parameters, so text between them
is kept, and a parameter is a placeholder as soon as its name is an identifier.  A query is there if
and only if it has a pair, since no pair has an empty text.
-/

namespace EndpointDsl

/-- The text of a segment if parameters stand for texts. -/
def Segment.filled (text : String → String) : Segment → String
  | literal t => t
  | param p => text p

def PathTemplate.filled (path : PathTemplate) (text : String → String) : String :=
  String.join (path.segments.map (Segment.filled text))

/-- The text of a segment, where the error names a parameter that has no value. -/
def Segment.fill (value? : String → Option String) : Segment → Except String String
  | literal t => .ok t
  | param p =>
    match value? p with
    | none => .error p
    | some text => .ok (Text.percentEncoded text)

namespace Wire

/-- A path and the pairs of its query, behind a question mark if there are any. -/
def withQuery (path : String) (pairs : List (String × String)) : String :=
  if pairs = [] then path else path ++ "?" ++ queryText pairs

/-! ## Paths -/

theorem flatMap_literalSegment (run : List Char) (text : String → String) :
    (PathTemplate.literalSegment run).flatMap (fun s => (s.filled text).toList) = run := by
  cases run with
  | nil => rfl
  | cons c run => simp [PathTemplate.literalSegment, Segment.filled]

theorem toList_filled (path : PathTemplate) (text : String → String) :
    (path.filled text).toList = path.segments.flatMap fun s => (s.filled text).toList := by
  rw [PathTemplate.filled, String.toList_join, List.flatMap_map]

section

variable {value? : String → Option String}

theorem fill_cons_of_ne {c : Char} {more : List Char} (hc : c ≠ '{') :
    fill value? (c :: more) = (fill value? more).map (c :: ·) := by
  rw [fill]
  exact hc

/-- Text without braces stays as it is. -/
theorem fill_run {run rest : List Char} (hrun : ∀ c ∈ run, PathTemplate.isBrace c = false) :
    fill value? (run ++ rest) = (fill value? rest).map (run ++ ·) := by
  induction run with
  | nil =>
    rw [List.nil_append]
    cases fill value? rest <;> rfl
  | cons c run ih =>
    obtain ⟨hc, hrun⟩ := List.forall_mem_cons.mp hrun
    have hopen : c ≠ '{' := by
      rintro rfl
      cases hc
    rw [List.cons_append, fill_cons_of_ne hopen, ih hrun]
    cases fill value? rest <;> rfl

theorem placeholder?_of_isIdent {name more : List Char} (hname : isIdent name = true) :
    placeholder? (name ++ '}' :: more) = some (String.ofList name, more) := by
  obtain ⟨htake, hdrop⟩ := @span_append _ isIdentRest name ('}' :: more)
    (fun c hc => PathTemplate.isIdentRest_of_mem_isIdent hname hc)
    (fun c hc => by cases hc; decide)
  rw [placeholder?, hdrop]
  simp only
  rw [htake, if_pos hname]

/-- A placeholder becomes the percent-encoded value of its parameter. -/
theorem fill_placeholder {name more : List Char} (hname : isIdent name = true) :
    fill value? ('{' :: (name ++ '}' :: more)) =
      (Segment.fill value? (.param (String.ofList name))).bind fun text =>
        (fill value? more).map (text.toList ++ ·) := by
  have hplaceholder := @placeholder?_of_isIdent name more hname
  rw [fill, Segment.fill]
  split
  · next name' rest heq =>
    cases hplaceholder.symm.trans heq
    cases value? (String.ofList name) <;> rfl
  · next heq => cases hplaceholder.symm.trans heq

theorem mapM_fill_literalSegment (run : List Char) :
    (PathTemplate.literalSegment run).mapM (Segment.fill value?) =
      .ok ((PathTemplate.literalSegment run).map (Segment.filled id)) := by
  cases run <;> rfl

/-- Text is filled where its segments are, as long as every parameter is an identifier. -/
theorem fill_of_spells {segments : List Segment} {cs : List Char}
    (h : PathTemplate.Spells segments cs)
    (hidents : ∀ p, .param p ∈ segments → isIdent p.toList = true) :
    fill value? cs =
      (segments.mapM (Segment.fill value?)).map fun texts => texts.flatMap String.toList := by
  induction h with
  | @text run hrun =>
    have hfill := @fill_run value? run [] hrun
    rw [List.append_nil] at hfill
    rw [hfill, fill, mapM_fill_literalSegment]
    refine congrArg Except.ok ?_
    show run ++ [] = ((PathTemplate.literalSegment run).map _).flatMap String.toList
    rw [List.append_nil, List.flatMap_map, flatMap_literalSegment]
  | @group run name more segments hrun hname hmore ih =>
    have hparam : Segment.param (String.ofList name) ∈
        PathTemplate.literalSegment run ++ .param (String.ofList name) :: segments :=
      List.mem_append_right _ List.mem_cons_self
    have hident := hidents _ hparam
    rw [String.toList_ofList] at hident
    have hrest := ih fun p hp => hidents p (List.mem_append_right _ (List.mem_cons_of_mem _ hp))
    rw [fill_run hrun, fill_placeholder hident, hrest, List.mapM_append, mapM_fill_literalSegment,
      List.mapM_cons]
    -- The first parameter without a value is the error on both sides.
    cases Segment.fill value? (.param (String.ofList name)) with
    | error p => rfl
    | ok text =>
      cases segments.mapM (Segment.fill value?) with
      | error p => rfl
      | ok texts =>
        refine congrArg Except.ok ?_
        show _ = ((PathTemplate.literalSegment run).map _ ++ text :: texts).flatMap String.toList
        rw [List.flatMap_append, List.flatMap_map, flatMap_literalSegment, List.flatMap_cons]

/-- A template whose parameters are identifiers is filled segment by segment. -/
theorem substitutePath_eq_mapM {path : PathTemplate}
    (h : PathTemplate.Spells path.segments path.raw.toList)
    (hidents : ∀ p ∈ path.parameters, isIdent p.toList = true) :
    substitutePath path.raw value? =
      (path.segments.mapM (Segment.fill value?)).map String.join := by
  rw [substitutePath, fill_of_spells h fun p hp => hidents p (List.mem_filterMap.mpr ⟨_, hp, rfl⟩)]
  cases path.segments.mapM (Segment.fill value?) with
  | error p => rfl
  | ok texts =>
    refine congrArg Except.ok ?_
    show String.ofList (texts.flatMap String.toList) = _
    rw [← String.toList_join, String.ofList_toList]

theorem mapM_fill {segments : List Segment} {text : String → String}
    (hvalues : ∀ p, .param p ∈ segments → value? p = some (text p)) :
    segments.mapM (Segment.fill value?) =
      .ok (segments.map (Segment.filled fun p => Text.percentEncoded (text p))) := by
  rw [mapM_eq_ok_iff, List.forall₂_map_right_iff, List.forall₂_same]
  intro s hs
  cases s with
  | literal t => rfl
  | param p =>
    rw [Segment.fill, hvalues p hs]
    rfl

/-- A template whose parameters are identifiers with values is filled all over. -/
theorem substitutePath_eq_filled {path : PathTemplate} {text : String → String}
    (h : PathTemplate.Spells path.segments path.raw.toList)
    (hparams : ∀ p ∈ path.parameters, isIdent p.toList = true ∧ value? p = some (text p)) :
    substitutePath path.raw value? = .ok (path.filled fun p => Text.percentEncoded (text p)) := by
  rw [substitutePath_eq_mapM h fun p hp => (hparams p hp).1,
    mapM_fill fun p hp => (hparams p (List.mem_filterMap.mpr ⟨_, hp, rfl⟩)).2]
  rfl

end

/-! ## Queries -/

theorem pairText_ne_empty (p : String × String) : pairText p ≠ "" := by
  intro h
  have hmem : '=' ∈ (pairText p).toList := by simp [pairText]
  rw [h] at hmem
  cases hmem

theorem queryText_eq_empty_iff {pairs : List (String × String)} :
    queryText pairs = "" ↔ pairs = [] := by
  unfold queryText
  cases pairs with
  | nil => exact ⟨fun _ => rfl, fun _ => rfl⟩
  | cons p more =>
    refine ⟨fun h => absurd h ?_, fun h => nomatch h⟩
    cases more with
    | nil =>
      rw [List.map_singleton, String.intercalate_singleton]
      exact pairText_ne_empty p
    | cons q more =>
      rw [List.map_cons, List.map_cons, String.intercalate_cons_cons]
      intro h
      have hempty := congrArg String.toList h
      simp at hempty

theorem appendQuery?_eq (path : String) (params : List (String × Json)) (exclude : List String) :
    appendQuery? path params exclude =
      (queryPairs? (params.filter fun p => !exclude.contains p.1)).map (withQuery path) := by
  unfold appendQuery? encodeQuery? withQuery
  rw [Option.map_map]
  simp only [Function.comp_def, String.isEmpty_iff, queryText_eq_empty_iff]

/-! ## Scalars with a text -/

theorem areWritableItems_iff {items : List Json} :
    areWritableItems items = true ↔ ∀ j ∈ items, isWritableJson j = true := by
  induction items with
  | nil => exact iff_of_true rfl nofun
  | cons j rest ih => rw [areWritableItems, Bool.and_eq_true, ih, List.forall_mem_cons]

theorem areWritableFields_iff {fields : List (String × Json)} :
    areWritableFields fields = true ↔ ∀ f ∈ fields, isWritableJson f.2 = true := by
  induction fields with
  | nil => exact iff_of_true rfl nofun
  | cons f rest ih => rw [areWritableFields, Bool.and_eq_true, ih, List.forall_mem_cons]

theorem isWritableJson_of_isNull {j : Json} (h : isNull j = true) : isWritableJson j = true := by
  cases j <;> first | rfl | cases h

/-- A parameter can be written if what a query shows of it can. -/
theorem queryScalars_writable_iff {j : Json} :
    (∀ s ∈ queryScalars j, isWritableJson s = true) ↔ isWritableJson j = true := by
  cases j with
  | null => exact iff_of_true nofun rfl
  | array items =>
    rw [isWritableJson, areWritableItems_iff, queryScalars]
    refine ⟨fun h s hs => ?_, fun h s hs => h s (List.mem_filter.mp hs).1⟩
    cases hnull : isNull s with
    | true => exact isWritableJson_of_isNull hnull
    | false => exact h s (List.mem_filter.mpr ⟨hs, by rw [hnull]; rfl⟩)
  | _ => exact List.forall_mem_singleton

theorem exists_scalarText?_iff {j : Json} :
    (∃ text, scalarText? j = some text) ↔ isWritableJson j = true := by
  unfold scalarText?
  split
  · next h => exact iff_of_true ⟨_, rfl⟩ h
  · next h => exact iff_of_false nofun h

/-- A query has its pairs unless a whole number in one of its parameters is too long. -/
theorem exists_queryPairs?_iff {params : List (String × Json)} :
    (∃ pairs, queryPairs? params = some pairs) ↔ ∀ p ∈ params, isWritableJson p.2 = true := by
  rw [queryPairs?, exists_mapM_eq_some_iff, List.forall_mem_flatMap]
  refine forall₂_congr fun p hp => ?_
  rw [List.forall_mem_map, ← queryScalars_writable_iff]
  refine forall₂_congr fun s hs => ?_
  rw [← exists_scalarText?_iff]
  constructor
  · rintro ⟨pair, hpair⟩
    obtain ⟨text, htext, -⟩ := Option.map_eq_some_iff.mp hpair
    exact ⟨text, htext⟩
  · rintro ⟨text, htext⟩
    exact ⟨(p.1, text), by rw [htext]; rfl⟩

end Wire
end EndpointDsl
