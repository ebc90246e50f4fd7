import EndpointDsl.Console
import EndpointDsl.Files.Store

/-!
What a run of the program asks of its surroundings: files, the environment, an input and a place
to print to.
-/

namespace EndpointDsl

class Host (m : Type → Type) extends FileStore m where
  environment : String → m (Option String)
  workingDirectory : m DiskPath
  /-- All octets of the standard input. -/
  readInput : m (Except OsError (List UInt8))
  /-- Whether data goes to a terminal. -/
  isTerminal : m Bool
  print : Printed → m Unit

namespace Host

variable {m : Type → Type} [Monad m] [Host m]

def terminal : m Terminal := do
  let isTerminal ← isTerminal
  let noColor ← environment "NO_COLOR"
  let term ← environment "TERM"
  return { isTerminal, noColor, term }

end Host

end EndpointDsl
