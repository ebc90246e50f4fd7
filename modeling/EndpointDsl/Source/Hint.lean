import EndpointDsl.Text.LetterCase
import EndpointDsl.Text.Similar
import EndpointDsl.Vocabulary

/-!
Hints for misspelt words.

A word that differs from a candidate only in letter case names that candidate; otherwise the
closest candidate is named, if there is a close one.
-/

namespace EndpointDsl
namespace Hint

/-- The last candidate that equals the word up to letter case. -/
def caseless? (word : String) (candidates : List String) : Option String :=
  candidates.reverse.find? fun c => Text.toLower c == Text.toLower word

def suggestion? (word : String) (candidates : List String) : Option String :=
  match caseless? word candidates with
  | some c => some c
  | none => Text.closest? word candidates

def text (word : String) (candidates : List String) : String :=
  match suggestion? word candidates with
  | some c => s!" (did you mean '{c}'?)"
  | none => ""

def verbNames : List String := Verb.all.map Verb.name

def roleNames : List String := Role.all.map Role.name

/-- The words that can open an item of a method. -/
def headWords : List String := roleNames ++ ["struct", "enum"]

/-- Verbs are written in capitals, so the word is compared in capitals. -/
def forVerb (word : String) : String := text (Text.toUpper word) verbNames

def forHead (word : String) : String := text word headWords

end Hint
end EndpointDsl
