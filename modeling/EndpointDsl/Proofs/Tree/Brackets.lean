import EndpointDsl.Proofs.Tree.Recovery
import EndpointDsl.Proofs.Tree.Soundness

/-!
The brackets of an endpoint.

In the grammar every bracket that is opened is closed, and none is closed that was not opened.  The
lexemes with that property are a language that holds whatever is put together from it, so the rules
are in it one after the other.  An endpoint is read from brackets around such lexemes, which is a
block, and a block can be read by itself.
-/

namespace EndpointDsl

/-- What a lexeme adds to the depth. -/
def Lexeme.weight (x : Lexeme) : Int := if x.isOpener then 1 else if x.isCloser then -1 else 0

def Lexeme.depth (w : List Lexeme) : Int := (w.map Lexeme.weight).sum

theorem Lexeme.depth_append (u v : List Lexeme) : depth (u ++ v) = depth u + depth v := by
  rw [depth, List.map_append, List.sum_append]
  rfl

theorem Tree.depth_eq (ts : List Token) : depth ts = Lexeme.depth (ts.map (·.lexeme)) := by
  rw [depth, Lexeme.depth, List.map_map]
  rfl

namespace Grammar

open Computability Lexeme

/-! ## Lexemes with their brackets in order -/

/-- Depth is never negative, and zero in the end. -/
def balanced : Language Lexeme := {w | depth w = 0 ∧ ∀ k, 0 ≤ depth (w.take k)}

section

variable {l m : Language Lexeme}

theorem one_le_balanced : 1 ≤ balanced := by
  intro w hw
  rw [(Language.mem_one w).mp hw]
  exact ⟨rfl, fun k => by rw [List.take_nil]; rfl⟩

theorem mul_le_balanced (hl : l ≤ balanced) (hm : m ≤ balanced) : l * m ≤ balanced := by
  intro w hw
  obtain ⟨u, hu, v, hv, rfl⟩ := Language.mem_mul.mp hw
  obtain ⟨hclosed, hopen⟩ := hl hu
  obtain ⟨hclosed', hopen'⟩ := hm hv
  refine ⟨by rw [depth_append, hclosed, hclosed', zero_add], fun k => ?_⟩
  rw [List.take_append, depth_append]
  exact add_nonneg (hopen k) (hopen' _)

theorem kstar_le_balanced (hl : l ≤ balanced) : l∗ ≤ balanced :=
  kstar_le_of_mul_le_left one_le_balanced (mul_le_balanced le_rfl hl)

theorem optional_le_balanced (hl : l ≤ balanced) : optional l ≤ balanced :=
  add_le one_le_balanced hl

theorem singleton_le_balanced {x : Lexeme} (hopener : x.isOpener = false)
    (hcloser : x.isCloser = false) : ({[x]} : Language Lexeme) ≤ balanced := by
  intro w hw
  cases hw
  have hweight : x.weight = 0 := by simp [weight, hopener, hcloser]
  refine ⟨by simp [depth, hweight], fun k => ?_⟩
  cases k with
  | zero => exact le_rfl
  | succ k => simp [depth, hweight]

theorem word_le_balanced (w : String) : word w ≤ balanced := singleton_le_balanced rfl rfl

theorem quoted_le_balanced (value : String) : quoted value ≤ balanced :=
  singleton_le_balanced rfl rfl

/-- Marks that open and close a group. -/
structure Encloses (left right : Punct) : Prop where
  left_weight : (punct left).weight = 1
  right_weight : (punct right).weight = -1

variable {left right : Punct} {u : List Lexeme}

theorem depth_enclosed (h : Encloses left right) (hu : u ∈ balanced) :
    depth (punct left :: (u ++ [punct right])) = 0 := by
  have hclosed : (u.map weight).sum = 0 := hu.1
  simp [depth, h.left_weight, h.right_weight, hclosed]

/-- Between the two marks the first one is open. -/
theorem depth_take_enclosed (h : Encloses left right) (hu : u ∈ balanced) {k : Nat} (hk : 0 < k)
    (hlength : k < (punct left :: (u ++ [punct right])).length) :
    0 < depth ((punct left :: (u ++ [punct right])).take k) := by
  obtain ⟨j, rfl⟩ := Nat.exists_eq_succ_of_ne_zero (Nat.ne_of_gt hk)
  have hj : j ≤ u.length := by
    simp only [List.length_cons, List.length_append, List.length_nil] at hlength
    omega
  have hinside : 0 ≤ depth (u.take j) := hu.2 j
  rw [List.take_succ_cons, List.take_append_of_le_length hj]
  show 0 < (List.map weight (punct left :: u.take j)).sum
  rw [List.map_cons, List.sum_cons, h.left_weight]
  show 0 < 1 + depth (u.take j)
  omega

theorem exists_of_mem_enclosed {w : List Lexeme} (hw : w ∈ mark left * l * mark right) :
    ∃ u ∈ l, w = punct left :: (u ++ [punct right]) := by
  obtain ⟨x, hx, z, hz, rfl⟩ := Language.mem_mul.mp hw
  obtain ⟨y, hy, u, hu, rfl⟩ := Language.mem_mul.mp hx
  cases hy
  cases hz
  exact ⟨u, hu, rfl⟩

theorem enclosed_le_balanced (h : Encloses left right) (hl : l ≤ balanced) :
    mark left * l * mark right ≤ balanced := by
  intro w hw
  obtain ⟨u, hu, rfl⟩ := exists_of_mem_enclosed hw
  refine ⟨depth_enclosed h (hl hu), fun k => ?_⟩
  rcases Nat.eq_zero_or_pos k with rfl | hk
  · exact le_rfl
  · rcases Nat.lt_or_ge k (punct left :: (u ++ [punct right])).length with hlt | hge
    · exact le_of_lt (depth_take_enclosed h (hl hu) hk hlt)
    · rw [List.take_of_length_le hge, depth_enclosed h (hl hu)]

theorem braced_le_balanced (hl : l ≤ balanced) : braced l ≤ balanced :=
  enclosed_le_balanced ⟨rfl, rfl⟩ hl

end

/-! ## The rules -/

theorem ident_le_balanced : ident ≤ balanced := iSup_le word_le_balanced

theorem string_le_balanced : string ≤ balanced := iSup_le quoted_le_balanced

theorem role_le_balanced : role ≤ balanced := iSup_le fun r => word_le_balanced r.name

theorem mark_le_balanced {m : Punct} (hopener : m.isOpener = false) (hcloser : m.isCloser = false) :
    mark m ≤ balanced :=
  singleton_le_balanced hopener hcloser

theorem comma_le_balanced : optional (mark .comma) ≤ balanced :=
  optional_le_balanced (mark_le_balanced rfl rfl)

/-- A list of one or more, with commas between them. -/
theorem separated_le_balanced {l : Language Lexeme} (hl : l ≤ balanced) :
    l * (mark .comma * l)∗ ≤ balanced :=
  mul_le_balanced hl (kstar_le_balanced (mul_le_balanced (mark_le_balanced rfl rfl) hl))

theorem bracketed_le_balanced : bracketed ≤ balanced := by
  have hitem : attributeItem ≤ balanced := by
    refine add_le (add_le string_le_balanced ident_le_balanced) ?_
    exact mul_le_balanced (mul_le_balanced ident_le_balanced (mark_le_balanced rfl rfl))
      string_le_balanced
  rw [bracketed, mul_assoc (mark .leftBracket)]
  exact enclosed_le_balanced ⟨rfl, rfl⟩
    (mul_le_balanced (separated_le_balanced hitem) comma_le_balanced)

theorem attributes_le_balanced : bracketed∗ ≤ balanced := kstar_le_balanced bracketed_le_balanced

theorem type_le_balanced : type ≤ balanced := by
  refine OrderHom.lfp_le _ ?_
  -- Angle brackets do not count, so that the arguments stand in no brackets.
  refine mul_le_balanced (mul_le_balanced ?_ ident_le_balanced) ?_
  · exact optional_le_balanced (mark_le_balanced rfl rfl)
  · exact optional_le_balanced (mul_le_balanced
      (mul_le_balanced (mark_le_balanced rfl rfl) (separated_le_balanced le_rfl))
      (mark_le_balanced rfl rfl))

theorem fields_le_balanced : fields ≤ balanced := by
  have hfield : field ≤ balanced := mul_le_balanced (mul_le_balanced
    (mul_le_balanced attributes_le_balanced ident_le_balanced) (mark_le_balanced rfl rfl))
      type_le_balanced
  exact kstar_le_balanced (mul_le_balanced hfield comma_le_balanced)

theorem variants_le_balanced : variants ≤ balanced := by
  have hpayload : mark .leftParen * type * mark .rightParen ≤ balanced :=
    enclosed_le_balanced ⟨rfl, rfl⟩ type_le_balanced
  have hvariant : variant ≤ balanced := mul_le_balanced
    (mul_le_balanced attributes_le_balanced ident_le_balanced) (optional_le_balanced hpayload)
  exact kstar_le_balanced (mul_le_balanced hvariant comma_le_balanced)

theorem item_le_balanced : item ≤ balanced := by
  have hroleStruct : roleStruct ≤ balanced := mul_le_balanced
    (mul_le_balanced role_le_balanced (optional_le_balanced (mark_le_balanced rfl rfl)))
    (braced_le_balanced fields_le_balanced)
  have htag : optional (mark .leftAngle * role * mark .rightAngle) ≤ balanced :=
    optional_le_balanced (mul_le_balanced
      (mul_le_balanced (mark_le_balanced rfl rfl) role_le_balanced) (mark_le_balanced rfl rfl))
  have hnamedStruct : namedStruct ≤ balanced := mul_le_balanced (mul_le_balanced
    (mul_le_balanced (word_le_balanced "struct") ident_le_balanced) htag)
      (braced_le_balanced fields_le_balanced)
  have henum : enum ≤ balanced := mul_le_balanced
    (mul_le_balanced (word_le_balanced "enum") ident_le_balanced)
    (braced_le_balanced variants_le_balanced)
  exact mul_le_balanced attributes_le_balanced (add_le (add_le hroleStruct hnamedStruct) henum)

theorem method_le_balanced : method ≤ balanced := by
  have hverb : verb ≤ balanced := iSup_le fun v => word_le_balanced v.name
  have hpath : path ≤ balanced := iSup₂_le fun t _ => quoted_le_balanced t.raw
  exact mul_le_balanced (mul_le_balanced (mul_le_balanced hverb hpath) (mark_le_balanced rfl rfl))
    (braced_le_balanced (kstar_le_balanced item_le_balanced))

/-- An endpoint is written between brackets that close with its last lexeme. -/
theorem exists_of_mem_endpoint {w : List Lexeme} (hw : w ∈ endpoint) :
    ∃ u ∈ balanced, w = punct .leftBracket :: (u ++ [punct .rightBracket]) := by
  have hinside : optional (word "pub") * ident * mark .colon * braced method∗ ≤ balanced :=
    mul_le_balanced (mul_le_balanced (mul_le_balanced (optional_le_balanced
      (word_le_balanced "pub")) ident_le_balanced) (mark_le_balanced rfl rfl))
      (braced_le_balanced (kstar_le_balanced method_le_balanced))
  have hendpoint : endpoint = mark .leftBracket *
      (optional (word "pub") * ident * mark .colon * braced method∗) * mark .rightBracket := by
    simp only [endpoint, mul_assoc]
  rw [hendpoint] at hw
  obtain ⟨u, hu, rfl⟩ := exists_of_mem_enclosed hw
  exact ⟨u, hinside hu, rfl⟩

end Grammar

namespace Tree

/-! ## Blocks that are read as endpoints -/

theorem isBlock_of_enclosed {block : List Token} {u : List Lexeme} (hu : u ∈ Grammar.balanced)
    (hblock : block.map (·.lexeme) = .punct .leftBracket :: (u ++ [.punct .rightBracket])) :
    IsBlock block := by
  have hencloses : Grammar.Encloses .leftBracket .rightBracket := ⟨rfl, rfl⟩
  constructor
  · cases block with
    | nil => cases hblock
    | cons t rest =>
      have ht : t.lexeme = .punct .leftBracket := (List.cons.inj hblock).1
      simp only [List.head?_cons, Option.any_some, ht]
      rfl
  · rw [depth_eq, hblock, Grammar.depth_enclosed hencloses hu]
  · intro k hk hpos
    have hlength : k < (.punct .leftBracket :: (u ++ [.punct .rightBracket])).length := by
      rw [← hblock, List.length_map]
      exact hk
    rw [depth_eq, List.map_take, hblock]
    exact ne_of_gt (Grammar.depth_take_enclosed hencloses hu hpos hlength)

/-- The block of an endpoint among tokens: it opens at the place of the endpoint, and goes on to the
bracket that closes it. -/
structure BlockOf (tokens : List Token) (e : Endpoint) (block : List Token) : Prop where
  isBlock : IsBlock block
  inside : block <:+: tokens
  opens_at : block.head?.map (·.location) = some e.location

namespace Parser

variable {stop : Location}

theorem head?_of_run_endpoint {ts rest : List Token} {e : Endpoint}
    (h : run (endpoint stop) ts = .ok (e, rest)) :
    ts.head?.map (·.location) = some e.location := by
  rw [run_endpoint] at h
  obtain ⟨opening, after, hopening, h⟩ := run_bind_eq_ok h
  obtain ⟨_, _, -, h⟩ := run_bind_eq_ok h
  obtain ⟨_, _, -, h⟩ := run_bind_eq_ok h
  obtain ⟨_, _, -, h⟩ := run_bind_eq_ok h
  obtain ⟨_, _, -, h⟩ := run_bind_eq_ok h
  obtain ⟨_, _, -, h⟩ := run_bind_eq_ok h
  obtain ⟨_, _, -, h⟩ := run_bind_eq_ok h
  cases h
  cases ts with
  | nil => cases hopening
  | cons t ts =>
    by_cases ht : t.lexeme = .punct .leftBracket
    · obtain ⟨lexeme, place⟩ := t
      cases ht
      rw [run_punct_mark] at hopening
      cases hopening
      rfl
    · rw [run_punct_of_ne ht] at hopening
      cases hopening

theorem skip_suffix (mark : Punct) (ts : List Token) : skip mark ts <:+ ts := by
  rcases mark_cases mark ts with ⟨place, rest, rfl⟩ | hne
  · rw [skip_mark]
    exact List.suffix_cons _ rest
  · rw [skip_of_ne hne]

/-- What is read as an endpoint is a block, and is read as the endpoint by itself. -/
theorem exists_block_of_run {ts rest : List Token} {e : Endpoint}
    (h : run (endpoint stop) ts = .ok (e, rest)) :
    ∃ block u, ts = block ++ rest ∧ IsBlock block ∧
      block.map (·.lexeme) = .punct .leftBracket :: (u ++ [.punct .rightBracket]) ∧
      ∀ stop', blocks stop' false block = [.ok e] := by
  obtain ⟨block, rfl, hwritten, hgood⟩ := reads_endpoint _ _ _ (Nat.le_refl _) h
  obtain ⟨u, hu, hlexemes⟩ :=
    Grammar.exists_of_mem_endpoint (Grammar.isUnion_endpoint.le hgood hwritten)
  have hblock := isBlock_of_enclosed hu hlexemes
  refine ⟨block, u, rfl, hblock, hlexemes, fun stop' => ?_⟩
  obtain ⟨result, hresult⟩ := exists_outcome hblock
  have hhere : firstBlock stop (block ++ rest) = .ok e :: blocks stop true rest := by
    obtain ⟨t, front, rfl, -, -⟩ := hblock.exists_closing
    rw [List.cons_append] at h ⊢
    rw [firstBlock, h]
  have hsame : result = .ok e := (List.cons.inj ((hresult stop rest).symm.trans hhere)).1
  rw [blocks_eq_outcome hblock hresult, hsame]

/-- Among blocks without an error every endpoint has its own. -/
theorem exists_blockOf_of_firstBlock {ts : List Token} {e : Endpoint}
    (h : (firstBlock stop ts).filterMap errorValue? = [])
    (he : e ∈ (firstBlock stop ts).filterMap okValue?) :
    ∃ block u, BlockOf ts e block ∧
      block.map (·.lexeme) = .punct .leftBracket :: (u ++ [.punct .rightBracket]) ∧
      ∀ stop', blocks stop' false block = [.ok e] := by
  induction hn : ts.length using Nat.strong_induction_on generalizing ts with
  | h n ih =>
    cases ts with
    | nil => cases he
    | cons t rest =>
      cases hread : run (endpoint stop) (t :: rest) with
      | error e =>
        rw [firstBlock, hread] at h
        cases h
      | ok r =>
        obtain ⟨a, more⟩ := r
        have hblocks : firstBlock stop (t :: rest) =
            .ok a :: firstBlock stop (skip .comma more) := by
          rw [firstBlock, hread, ← blocks_after]
        rw [hblocks] at h he
        obtain ⟨block, u, hts, hblock, hlexemes, halone⟩ := exists_block_of_run hread
        rcases List.mem_cons.mp he with rfl | he
        · refine ⟨block, u, ⟨hblock, ⟨[], more, hts.symm⟩, ?_⟩, hlexemes, halone⟩
          have hhead := head?_of_run_endpoint hread
          obtain ⟨t', front, rfl, -, -⟩ := hblock.exists_closing
          rw [hts] at hhead
          exact hhead
        · have hshorter : (skip .comma more).length < n := by
            have hmore := shrinks_run _ _ _ _ hread
            have hskip := length_skip_le .comma more
            omega
          obtain ⟨block', u', hof, hrest⟩ := ih _ hshorter h he rfl
          have hsuffix : skip .comma more <:+ t :: rest :=
            (skip_suffix .comma more).trans ⟨block, hts.symm⟩
          exact ⟨block', u', ⟨hof.isBlock, hof.inside.trans hsuffix.isInfix, hof.opens_at⟩, hrest⟩

end Parser

theorem exists_blockOf {unit : String} {list : TokenList} {e : Endpoint}
    (h : (ofTokens unit list).errors = []) (he : e ∈ (ofTokens unit list).source.endpoints) :
    ∃ block u, BlockOf list.tokens e block ∧
      block.map (·.lexeme) = .punct .leftBracket :: (u ++ [.punct .rightBracket]) ∧
      ∀ stop, ofTokens unit ⟨block, stop⟩ = ⟨⟨unit, [e]⟩, []⟩ := by
  have hblocks : Parser.blocks list.stop false list.tokens =
      Parser.firstBlock list.stop list.tokens := Parser.blocks_eq_firstBlock false list.tokens
  simp only [ofTokens, hblocks] at h he
  obtain ⟨block, u, hof, hlexemes, halone⟩ := Parser.exists_blockOf_of_firstBlock h he
  refine ⟨block, u, hof, hlexemes, fun stop => ?_⟩
  simp only [ofTokens, halone]
  rfl

end Tree
end EndpointDsl
