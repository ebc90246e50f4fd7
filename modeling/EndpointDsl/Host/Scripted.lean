import EndpointDsl.Files.Disk
import EndpointDsl.Host.Basic

/-!
A host as plain data, on which runs can be tried and reasoned about.

One of the operations on temporary files can be made to fail, to see what is left behind.
-/

namespace EndpointDsl

/-- Which operation on temporary files fails. -/
structure Breakdown where
  /-- How many of them go well before. -/
  after : Nat
  /-- How many octets are on the disk if it is a write that fails. -/
  torn : Nat := 0
  deriving DecidableEq, Repr, Inhabited

/-- The breakdown still to come after an operation that went well. -/
def Breakdown.later (b : Breakdown) : Breakdown := { b with after := b.after - 1 }

structure ScriptedHost where
  disk : Disk
  breakdown : Option Breakdown := none
  environment : List (String × String) := []
  input : List UInt8 := []
  isTerminal : Bool := false
  printed : Printed := {}
  deriving Repr, Inhabited

namespace ScriptedHost

def brokenFault : OsFault := .other 5 "Input/output error"

/-- An operation on the disk that always does what it can. -/
def perform {α : Type} (onFault : OsFault → OsError)
    (operation : Disk → Except OsFault (α × Disk)) : StateM ScriptedHost (Except OsError α) := do
  let h ← get
  match operation h.disk with
  | .ok (a, disk) =>
    set { h with disk }
    return .ok a
  | .error fault => return .error (onFault fault)

/-- An operation on a temporary file.  If its turn to fail has come, it only does `broken`. -/
def attempt {α : Type} (onFault : OsFault → OsError) (broken : Nat → Disk → Disk)
    (operation : Disk → Except OsFault (α × Disk)) : StateM ScriptedHost (Except OsError α) := do
  let h ← get
  match h.breakdown with
  | none => perform onFault operation
  | some b =>
    if b.after = 0 then
      set { h with breakdown := none, disk := broken b.torn h.disk }
      return .error (onFault brokenFault)
    else
      set { h with breakdown := some b.later }
      perform onFault operation

def untouched (_ : Nat) (d : Disk) : Disk := d

/-- A write that fails leaves the first octets. -/
def tornWrite (temporary : DiskPath) (bytes : List UInt8) (torn : Nat) (d : Disk) : Disk :=
  match d.writeTemporary temporary (bytes.take torn) with
  | .ok d => d
  | .error _ => d

def noChange (d : Disk) : Except OsFault (Unit × Disk) := .ok ((), d)

def withoutValue (result : Except OsFault Disk) : Except OsFault (Unit × Disk) :=
  result.map fun d => ((), d)

end ScriptedHost

open ScriptedHost in
instance : Host (StateM ScriptedHost) where
  isFile p := return (← get).disk.isFile p
  isDirectory p := return (← get).disk.isDirectory p
  readBytes p := perform (.ofPath p) fun d => (d.read p).map fun bytes => (bytes, d)
  makeDirectory p := perform (.ofPath p) fun d => withoutValue (d.makeDirectory p)
  createTemporary p := attempt (.ofPath p) untouched fun d => d.createTemporary p
  writeTemporary p bytes :=
    attempt (.ofPath p) (tornWrite p bytes) fun d => withoutValue (d.writeTemporary p bytes)
  flushTemporary p := attempt (.ofPath p) untouched noChange
  syncTemporary p := attempt (.ofPath p) untouched noChange
  closeTemporary p := attempt (.ofPath p) untouched noChange
  replaceFile temporary target :=
    attempt (.ofMove temporary target) untouched fun d => withoutValue (d.replace temporary target)
  discardTemporary p := modify fun h => { h with disk := h.disk.discard p }
  environment name := return lookup? name (← get).environment
  workingDirectory := return { root := "/", parts := (← get).disk.home }
  readInput := return .ok (← get).input
  isTerminal := return (← get).isTerminal
  print p := modify fun h => { h with printed := h.printed.append p }

end EndpointDsl
