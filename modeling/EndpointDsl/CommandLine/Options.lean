/-!
Options among the arguments of a command.

A long option starts with two dashes and may carry its value after an equals sign; short options
have one dash and one letter and may be written together.  Two dashes alone end the options.
-/

namespace EndpointDsl
namespace CommandLine

/-- What is wrong with the arguments. -/
inductive UsageError
  | unknownOption (text : String)
  | valueUnexpected (option : String)
  | valueMissing (option : String)
  | commandMissing
  | unknownCommand (name : String)
  | sourceMissing
  | extraArguments (arguments : List String)
  deriving DecidableEq, Repr, Inhabited

/-- An option of a command, known by `key`. -/
structure OptionSpec (α : Type) where
  key : α
  long : String
  short : Option Char := none
  takesValue : Bool := false

/-- An option that was given, with its value if it takes one. -/
structure Given (α : Type) where
  key : α
  value : String := ""
  deriving DecidableEq, Repr

/-- What an argument says by itself. -/
inductive Argument (α : Type)
  | positional
  | endOfOptions
  | options (given : List (Given α))
  /-- The last option takes its value from the next argument. -/
  | awaiting (given : List (Given α)) (option : OptionSpec α)

variable {α : Type}

def longArgument (option : OptionSpec α) (value : Option String) : Except UsageError (Argument α) :=
  match option.takesValue, value with
  | true, some value => .ok (.options [⟨option.key, value⟩])
  | true, none => .ok (.awaiting [] option)
  | false, some _ => .error (.valueUnexpected option.long)
  | false, none => .ok (.options [⟨option.key, ""⟩])

/-- Letters after one dash.  An option with a value takes the letters after it, if there are any. -/
def shortArgument (specs : List (OptionSpec α)) : List Char → Except UsageError (Argument α)
  | [] => .ok (.options [])
  | c :: rest =>
    match specs.find? (·.short == some c) with
    | none => .error (.unknownOption (String.ofList ['-', c]))
    | some option =>
      if option.takesValue then
        if rest.isEmpty then .ok (.awaiting [] option)
        else .ok (.options [⟨option.key, String.ofList rest⟩])
      else do
        match ← shortArgument specs rest with
        | .options given => .ok (.options (⟨option.key, ""⟩ :: given))
        | .awaiting given last => .ok (.awaiting (⟨option.key, ""⟩ :: given) last)
        | other => .ok other

/-- The name of a long option, and the value after the first equals sign. -/
def splitLong (cs : List Char) : String × Option String :=
  let (name, rest) := cs.span (· != '=')
  (String.ofList name, if rest.isEmpty then none else some (String.ofList (rest.drop 1)))

def readArgument (specs : List (OptionSpec α)) (argument : String) :
    Except UsageError (Argument α) :=
  match argument.toList with
  | ['-', '-'] => .ok .endOfOptions
  | '-' :: '-' :: rest =>
    let (name, value) := splitLong ('-' :: '-' :: rest)
    match specs.find? (·.long == name) with
    | some option => longArgument option value
    | none => .error (.unknownOption name)
  | '-' :: c :: rest => shortArgument specs (c :: rest)
  | _ => .ok .positional

/-- The options among arguments, and the other arguments. -/
structure Sorted (α : Type) where
  given : List (Given α) := []
  others : List String := []
  deriving DecidableEq, Repr

/-- Sorts arguments into options and others.  Unless options may stand among the others, the
first other argument ends them. -/
def sortArguments (specs : List (OptionSpec α)) (mixed : Bool) :
    List String → Except UsageError (Sorted α)
  | [] => .ok {}
  | argument :: rest => do
    match ← readArgument specs argument with
    | .endOfOptions => return { others := rest }
    | .positional =>
      if mixed then
        let s ← sortArguments specs mixed rest
        return { s with others := argument :: s.others }
      else return { others := argument :: rest }
    | .options given =>
      let s ← sortArguments specs mixed rest
      return { s with given := given ++ s.given }
    | .awaiting given option =>
      match rest with
      | [] => .error (.valueMissing option.long)
      | value :: rest =>
        let s ← sortArguments specs mixed rest
        return { s with given := given ++ ⟨option.key, value⟩ :: s.given }

namespace Sorted

def has [BEq α] (s : Sorted α) (key : α) : Bool := s.given.any (·.key == key)

/-- The value that an option was given last. -/
def value? [BEq α] (s : Sorted α) (key : α) : Option String :=
  (s.given.findRev? (·.key == key)).map (·.value)

end Sorted

end CommandLine
end EndpointDsl
