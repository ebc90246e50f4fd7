/-!
Places in a source text.

Lines and columns count from one, offsets from zero, all in characters.  Only a newline ends a
line.
-/

namespace EndpointDsl

structure Location where
  unit : String := "<string>"
  line : Nat := 1
  column : Nat := 1
  offset : Nat := 0
  deriving DecidableEq, Repr, Inhabited

namespace Location

/-- The first place of a unit. -/
def start (unit : String) : Location := { unit }

/-- The place after a character. -/
def next (l : Location) (c : Char) : Location :=
  if c = '\n' then { l with line := l.line + 1, column := 1, offset := l.offset + 1 }
  else { l with column := l.column + 1, offset := l.offset + 1 }

/-- The place after a run of characters. -/
def after (l : Location) (cs : List Char) : Location := cs.foldl next l

def text (l : Location) : String := s!"{l.unit}:{l.line}:{l.column}"

@[simp] theorem unit_next (l : Location) (c : Char) : (l.next c).unit = l.unit := by
  unfold next; split <;> rfl

@[simp] theorem offset_next (l : Location) (c : Char) : (l.next c).offset = l.offset + 1 := by
  unfold next; split <;> rfl

@[simp] theorem after_nil (l : Location) : l.after [] = l := rfl

@[simp] theorem after_cons (l : Location) (c : Char) (cs : List Char) :
    l.after (c :: cs) = (l.next c).after cs := rfl

theorem after_append (l : Location) (cs ds : List Char) :
    l.after (cs ++ ds) = (l.after cs).after ds := by
  simp [after, List.foldl_append]

@[simp] theorem offset_after (l : Location) (cs : List Char) :
    (l.after cs).offset = l.offset + cs.length := by
  induction cs generalizing l with
  | nil => simp
  | cons c rest ih => simp [ih]; omega

end Location
end EndpointDsl
