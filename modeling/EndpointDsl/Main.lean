import EndpointDsl.CommandLine.Run
import EndpointDsl.Host.Live

/-!
The program.
-/

open EndpointDsl in
def main (arguments : List String) : IO UInt32 := do
  let status : ExitStatus ← CommandLine.run arguments
  return UInt32.ofNat status.code
