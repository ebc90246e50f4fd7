/-!
How a run of the program can end, and the number that tells a caller which way it was.
-/

namespace EndpointDsl

inductive ExitStatus
  | success
  /-- An unclassified failure. -/
  | failure
  | invalidUsage
  /-- The source text cannot be read. -/
  | sourceError
  /-- The source text has diagnostics. -/
  | compileError
  /-- A schema that passed analysis could not be turned into a module. -/
  | internalError
  | configError
  deriving DecidableEq, Repr, Inhabited

namespace ExitStatus

def code : ExitStatus → Nat
  | success => 0
  | failure => 1
  | invalidUsage => 2
  | sourceError => 3
  | compileError => 4
  | internalError => 5
  | configError => 6

def all : List ExitStatus :=
  [success, failure, invalidUsage, sourceError, compileError, internalError, configError]

/-- The name under which the number is published. -/
def constant : ExitStatus → String
  | success => "EXIT_SUCCESS"
  | failure => "EXIT_GENERIC_FAILURE"
  | invalidUsage => "EXIT_INVALID_USAGE"
  | sourceError => "EXIT_SOURCE_ERROR"
  | compileError => "EXIT_COMPILE_ERROR"
  | internalError => "EXIT_INTERNAL_ERROR"
  | configError => "EXIT_CONFIG_ERROR"

end ExitStatus

end EndpointDsl
