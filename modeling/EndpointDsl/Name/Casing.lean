import EndpointDsl.Reading

/-!
Words of a name and the casing styles that put them together again.

Words are made of ASCII letters and digits, and digits count as lower case.  A word ends where a
capital follows a lower-case character; of a run of capitals followed by a lower-case character,
the last capital starts that character's word.  Any other character separates words.
-/

namespace EndpointDsl
namespace Casing

def isLow (c : Char) : Bool := c.isLower || c.isDigit

/-- The words of a name, in the letter case they have there. -/
def rawWords (cs : List Char) : List (List Char) :=
  match cs with
  | [] => []
  | c :: rest =>
    if isLow c then
      have := length_dropWhile_le isLow rest
      (c :: rest.takeWhile isLow) :: rawWords (rest.dropWhile isLow)
    else if c.isUpper then
      let capitals := c :: rest.takeWhile Char.isUpper
      let after := rest.dropWhile Char.isUpper
      have := length_dropWhile_le Char.isUpper rest
      have := length_dropWhile_le isLow (rest.dropWhile Char.isUpper)
      match after.takeWhile isLow with
      | [] => capitals :: rawWords after
      | low :: lows =>
        let tail := (capitals.getLastD c :: low :: lows) :: rawWords (after.dropWhile isLow)
        if capitals.dropLast.isEmpty then tail else capitals.dropLast :: tail
    else rawWords rest
termination_by cs.length

/-- The words of a name in lower case. -/
def words (name : String) : List String :=
  (rawWords name.toList).map fun w => String.ofList (w.map Char.toLower)

def capitalize (word : String) : String :=
  match word.toList with
  | [] => ""
  | c :: rest => String.ofList (c.toUpper :: rest)

def upper (word : String) : String := String.ofList (word.toList.map Char.toUpper)

inductive Style
  | camel
  | pascal
  | snake
  | screamingSnake
  | kebab
  | screamingKebab
  | lower
  | upper
  deriving DecidableEq, Repr, Inhabited

namespace Style

def all : List Style :=
  [camel, pascal, snake, screamingSnake, kebab, screamingKebab, lower, upper]

def name : Style → String
  | camel => "camelCase"
  | pascal => "PascalCase"
  | snake => "snake_case"
  | screamingSnake => "SCREAMING_SNAKE_CASE"
  | kebab => "kebab-case"
  | screamingKebab => "SCREAMING-KEBAB-CASE"
  | lower => "lowercase"
  | upper => "UPPERCASE"

def ofName? (s : String) : Option Style := all.find? (·.name == s)

theorem ofName?_name (s : Style) : ofName? s.name = some s := by cases s <;> decide

/-- Words put together; the list is not empty. -/
def join : Style → List String → String
  | camel, [] => ""
  | camel, w :: ws => w ++ String.join (ws.map capitalize)
  | pascal, ws => String.join (ws.map capitalize)
  | snake, ws => String.intercalate "_" ws
  | screamingSnake, ws => Casing.upper (String.intercalate "_" ws)
  | kebab, ws => String.intercalate "-" ws
  | screamingKebab, ws => Casing.upper (String.intercalate "-" ws)
  | lower, ws => String.join ws
  | upper, ws => Casing.upper (String.join ws)

/-- The name in a style; a name without words stays as it is. -/
def apply (style : Style) (name : String) : String :=
  match words name with
  | [] => name
  | ws => style.join ws

end Style

/-- The name in the style of a given name, if there is such a style or nothing to spell. -/
def applyNamed? (style name : String) : Option String :=
  match words name with
  | [] => some name
  | ws => (Style.ofName? style).map (·.join ws)

def toSnake (name : String) : String := Style.snake.apply name

def toPascal (name : String) : String := Style.pascal.apply name

end Casing
end EndpointDsl
