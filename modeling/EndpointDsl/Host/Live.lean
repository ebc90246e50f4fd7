import EndpointDsl.Host.Basic

/-!
The computer that the program runs on as its host.
-/

namespace EndpointDsl
namespace LiveHost

/-- The number and the reason that the system gives for an error. -/
def numberAndReason : IO.Error → Nat × String
  | .alreadyExists _ n s | .invalidArgument _ n s | .permissionDenied _ n s
  | .resourceExhausted _ n s | .inappropriateType _ n s | .noSuchThing _ n s
  | .interrupted _ n s | .noFileOrDirectory _ n s => (n.toNat, s)
  | .otherError n s | .resourceBusy n s | .resourceVanished n s | .unsupportedOperation n s
  | .hardwareFault n s | .unsatisfiedConstraints n s | .illegalOperation n s
  | .protocolError n s | .timeExpired n s => (n.toNat, s)
  | .unexpectedEof => (5, "Input/output error")
  | .userError s => (5, s)

def faultOf (e : IO.Error) : OsFault :=
  match numberAndReason e with
  | (2, _) => .noSuchFile
  | (17, _) => .fileExists
  | (20, _) => .notDirectory
  | (21, _) => .isDirectory
  | (n, s) => .other n s

def guarded {α : Type} (onFault : OsFault → OsError) (action : IO α) : IO (Except OsError α) := do
  try return .ok (← action)
  catch e => return .error (onFault (faultOf e))

def fileType? (p : DiskPath) : IO (Option IO.FS.FileType) := do
  try
    let place := (← IO.currentDir) / p.text
    return some (← place.metadata).type
  catch _ => return none

def nameLetters : List Char := "abcdefghijklmnopqrstuvwxyz0123456789_".toList

def randomLetter : IO Char := do
  let n ← IO.rand 0 (nameLetters.length - 1)
  return nameLetters[n]?.getD 'a'

def randomName (length : Nat) : IO String := do
  let letters ← (List.range length).mapM fun _ => randomLetter
  return String.ofList letters

/-- Makes a file that only its owner can read and write. -/
def createPrivate (p : DiskPath) : IO Unit := do
  let _ ← IO.FS.Handle.mk p.text .writeNew
  IO.setAccessRights p.text { user := { read := true, write := true } }

def createTemporary (target : DiskPath) : IO DiskPath := do
  let temporary := target.parent.join ("." ++ target.name ++ "." ++ (← randomName 8) ++ ".tmp")
  createPrivate temporary
  return temporary

def fill (temporary : DiskPath) (bytes : List UInt8) : IO Unit := do
  let handle ← IO.FS.Handle.mk temporary.text .write
  handle.write bytes.toByteArray
  handle.flush

def printTo (stream : IO.FS.Stream) (text : String) : IO Unit := do
  if !text.isEmpty then
    stream.putStr text
    stream.flush

end LiveHost

open LiveHost in
instance : Host IO where
  isFile p := do
    match ← fileType? p with
    | some .file => return true
    | _ => return false
  isDirectory p := do
    match ← fileType? p with
    | some .dir => return true
    | _ => return false
  readBytes p := guarded (.ofPath p) do return (← IO.FS.readBinFile p.text).toList
  makeDirectory p := guarded (.ofPath p) (IO.FS.createDir p.text)
  createTemporary p := guarded (.ofPath p) (createTemporary p)
  writeTemporary p bytes := guarded (.ofPath p) (fill p bytes)
  flushTemporary _ := return .ok ()
  syncTemporary _ := return .ok ()
  closeTemporary _ := return .ok ()
  replaceFile temporary target :=
    guarded (.ofMove temporary target) (IO.FS.rename temporary.text target.text)
  discardTemporary p := do
    let _ ← guarded (.ofPath p) (IO.FS.removeFile p.text)
  environment name := IO.getEnv name
  workingDirectory := return DiskPath.ofText (toString (← IO.currentDir))
  readInput := do
    guarded (.ofPath (.ofText "-")) do return (← (← IO.getStdin).readBinToEnd).toList
  isTerminal := do (← IO.getStdout).isTty
  print p := do
    printTo (← IO.getStdout) p.out
    printTo (← IO.getStderr) p.err

end EndpointDsl
