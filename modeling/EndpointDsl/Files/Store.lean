import EndpointDsl.Files.Path
import EndpointDsl.Text.Quoted

/-!
Reading and replacing files.

A file is written to a temporary file beside it, which then takes its place in one step.  If any
step fails, the temporary file is closed, unless it is, and removed, and the file is what it was.
-/

namespace EndpointDsl

inductive OsFault
  | noSuchFile
  | fileExists
  | notDirectory
  | isDirectory
  | other (number : Nat) (reason : String)
  deriving DecidableEq, Repr, Inhabited

namespace OsFault

def number : OsFault → Nat
  | noSuchFile => 2
  | fileExists => 17
  | notDirectory => 20
  | isDirectory => 21
  | other n _ => n

def reason : OsFault → String
  | noSuchFile => "No such file or directory"
  | fileExists => "File exists"
  | notDirectory => "Not a directory"
  | isDirectory => "Is a directory"
  | other _ text => text

end OsFault

/-- A failed operation on a path. -/
structure OsError where
  fault : OsFault
  path : String
  /-- Where the path was to be moved, if it was. -/
  target : Option String := none
  deriving DecidableEq, Repr, Inhabited

def OsError.message (e : OsError) : String :=
  let move := match e.target with
    | some target => " -> " ++ Text.quoted target
    | none => ""
  s!"[Errno {e.fault.number}] {e.fault.reason}: {Text.quoted e.path}" ++ move

/-- A failure at a path. -/
def OsError.ofPath (p : DiskPath) (fault : OsFault) : OsError := { fault, path := p.text }

/-- A failure to move one path to another. -/
def OsError.ofMove (p target : DiskPath) (fault : OsFault) : OsError :=
  { fault, path := p.text, target := some target.text }

/-- Operations on files, each of which can fail. -/
class FileStore (m : Type → Type) where
  isFile : DiskPath → m Bool
  isDirectory : DiskPath → m Bool
  readBytes : DiskPath → m (Except OsError (List UInt8))
  /-- Makes one directory, whose parent exists. -/
  makeDirectory : DiskPath → m (Except OsError Unit)
  /-- Makes an empty file beside the one given, with a name of its own. -/
  createTemporary : DiskPath → m (Except OsError DiskPath)
  writeTemporary : DiskPath → List UInt8 → m (Except OsError Unit)
  flushTemporary : DiskPath → m (Except OsError Unit)
  syncTemporary : DiskPath → m (Except OsError Unit)
  /-- Closes the temporary file, or does nothing if that was tried before. -/
  closeTemporary : DiskPath → m (Except OsError Unit)
  /-- Puts the temporary file in the place of another file. -/
  replaceFile : (temporary target : DiskPath) → m (Except OsError Unit)
  /-- Removes the temporary file. -/
  discardTemporary : DiskPath → m Unit

namespace FileStore

variable {m : Type → Type} [Monad m]

/-- Goes on with the value of an operation that succeeded. -/
def andThen {α β : Type} (operation : m (Except OsError α)) (next : α → m (Except OsError β)) :
    m (Except OsError β) := do
  match ← operation with
  | .ok a => next a
  | .error e => return .error e

/-- Deals with the failure of an operation. -/
def rescue {α : Type} (operation : m (Except OsError α)) (handle : OsError → m (Except OsError α)) :
    m (Except OsError α) := do
  match ← operation with
  | .ok a => return .ok a
  | .error e => handle e

variable [FileStore m]

/-- What remains of a failure to make a directory: nothing if the directory is there anyway. -/
def unlessDirectory (p : DiskPath) (e : OsError) : m (Except OsError Unit) := do
  return if ← isDirectory p then .ok () else .error e

/-- Makes the directory whose parts are given last first, and those above it.  A directory that
exists is left as it is. -/
def makeDirectoriesFrom (root : String) : List String → m (Except OsError Unit)
  | [] =>
    let here : DiskPath := { root, parts := [] }
    rescue (makeDirectory here) (unlessDirectory here)
  | part :: above =>
    let here : DiskPath := { root, parts := (part :: above).reverse }
    rescue (makeDirectory here) fun e =>
      if e.fault = .noSuchFile then
        andThen (makeDirectoriesFrom root above) fun () =>
        rescue (makeDirectory here) fun e =>
          if e.fault = .noSuchFile then return .error e else unlessDirectory here e
      else unlessDirectory here e

def makeDirectories (p : DiskPath) : m (Except OsError Unit) :=
  makeDirectoriesFrom p.root p.parts.reverse

/-- Fills the temporary file and closes it. -/
def fill (temporary : DiskPath) (bytes : List UInt8) : m (Except OsError Unit) :=
  andThen (writeTemporary temporary bytes) fun () =>
  andThen (flushTemporary temporary) fun () =>
  andThen (syncTemporary temporary) fun () =>
  closeTemporary temporary

/-- Gives up the temporary file, which is closed. -/
def discard (temporary : DiskPath) (e : OsError) : m (Except OsError Unit) := do
  discardTemporary temporary
  return .error e

/-- Gives up the temporary file, which may still be open.  If it cannot be closed, it stays. -/
def closeAndDiscard (temporary : DiskPath) (e : OsError) : m (Except OsError Unit) :=
  andThen (closeTemporary temporary) fun () => discard temporary e

/-- Writes a file so that it holds its old or its new content at any time. -/
def atomicWrite (target : DiskPath) (bytes : List UInt8) : m (Except OsError Unit) :=
  andThen (makeDirectories target.parent) fun () =>
  andThen (createTemporary target) fun temporary =>
  andThen (rescue (fill temporary bytes) (closeAndDiscard temporary)) fun () =>
  rescue (replaceFile temporary target) (discard temporary)

/-- Writes files in order, up to the first failure. -/
def writeAll : List (DiskPath × List UInt8) → m (Except OsError Unit)
  | [] => return .ok ()
  | (target, bytes) :: rest => andThen (atomicWrite target bytes) fun () => writeAll rest

end FileStore

end EndpointDsl
