/-!
How alike two words are, and the nearest of a list of candidates.

Two words are compared by their matching blocks.  The longest block that both contain comes
first, the leftmost of several; the parts before it and the parts after it are then compared in
the same way.  The likeness is twice the number of matched characters over the characters of
both words.

In a word of two hundred characters or more, a character that makes up over a hundredth of it
does not start a block; a block found without it still grows over it on both sides.
-/

namespace EndpointDsl
namespace Text

/-- A stretch of `size` characters that stands at `left` in one word and at `right` in the
other. -/
structure Block where
  left : Nat
  right : Nat
  size : Nat

/-- The length of the common start of two words, as long as its characters satisfy `keep`. -/
def commonStart (keep : Char → Bool) : List Char → List Char → Nat
  | a :: as, b :: bs => if a = b && keep b then commonStart keep as bs + 1 else 0
  | _, _ => 0

def longestAt (keep : Char → Bool) (as : List Char) (i : Nat) :
    List Char → Nat → Block → Block
  | [], _, best => best
  | b :: bs, j, best =>
    let k := commonStart keep as (b :: bs)
    longestAt keep as i bs (j + 1) (if best.size < k then ⟨i, j, k⟩ else best)

def longestFrom (keep : Char → Bool) (bs : List Char) : List Char → Nat → Block → Block
  | [], _, best => best
  | a :: as, i, best => longestFrom keep bs as (i + 1) (longestAt keep (a :: as) i bs 0 best)

/-- The longest block of kept characters, grown over equal characters on both sides. -/
def longestBlock (keep : Char → Bool) (as bs : List Char) : Block :=
  let found := longestFrom keep bs as 0 ⟨0, 0, 0⟩
  let before := commonStart (fun _ => true) (as.take found.left).reverse
    (bs.take found.right).reverse
  let after := commonStart (fun _ => true) (as.drop (found.left + found.size))
    (bs.drop (found.right + found.size))
  ⟨found.left - before, found.right - before, before + found.size + after⟩

/-- The characters matched in all blocks of two words. -/
def matchedCount (keep : Char → Bool) (as bs : List Char) : Nat :=
  match longestBlock keep as bs with
  | ⟨left, right, size⟩ =>
    if _h : size = 0 ∨ as.length ≤ left then 0
    else
      matchedCount keep (as.take left) (bs.take right) + size +
        matchedCount keep (as.drop (left + size)) (bs.drop (right + size))
termination_by as.length
decreasing_by
  all_goals simp only [List.length_take, List.length_drop]; omega

def isFrequent (word : List Char) (c : Char) : Bool :=
  decide (200 ≤ word.length) && decide (word.length / 100 + 1 < word.count c)

/-- A candidate with its likeness `2 * matched / total` to the word. -/
structure Likeness where
  candidate : String
  matched : Nat
  total : Nat

def likeness (word candidate : String) : Likeness where
  candidate
  matched := matchedCount (fun c => !isFrequent word.toList c) candidate.toList word.toList
  total := candidate.length + word.length

/-- Three fifths alike or more. -/
def Likeness.isClose (l : Likeness) : Bool := decide (3 * l.total ≤ 10 * l.matched)

/-- Whether `l` is at least as good as `r`: more alike, or as much and not an earlier string. -/
def Likeness.beats (l r : Likeness) : Bool :=
  let a := l.matched * r.total
  let b := r.matched * l.total
  decide (b < a) || (a == b && decide (r.candidate < l.candidate))

/-- The candidate most like the word, provided it is close; of equals the larger string. -/
def closest? (word : String) (candidates : List String) : Option String :=
  let close := (candidates.map (likeness word)).filter Likeness.isClose
  let best := close.foldl (fun best? l =>
    match best? with
    | none => some l
    | some best => some (if l.beats best then l else best)) (none : Option Likeness)
  best.map (·.candidate)

end Text
end EndpointDsl
