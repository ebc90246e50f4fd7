import EndpointDsl.Files.Store

/-!
A disk as plain data: the places from the root down, and what is there.
-/

namespace EndpointDsl

inductive Node
  | directory
  | file (bytes : List UInt8)
  deriving DecidableEq, Repr, Inhabited

structure Disk where
  /-- The working directory, from the root down. -/
  home : List String := []
  nodes : List (List String × Node) := []
  deriving DecidableEq, Repr, Inhabited

namespace Disk

/-- What is at a place.  The root is a directory. -/
def get? (d : Disk) (place : List String) : Option Node :=
  if place.isEmpty then some .directory else (d.nodes.find? (·.1 == place)).map (·.2)

/-- The disk with something new at a place. -/
def set (d : Disk) (place : List String) (node : Node) : Disk :=
  { d with nodes := (place, node) :: d.nodes.filter (·.1 != place) }

def erase (d : Disk) (place : List String) : Disk :=
  { d with nodes := d.nodes.filter (·.1 != place) }

theorem get?_set_self {d : Disk} {place : List String} (node : Node) (h : place ≠ []) :
    (d.set place node).get? place = some node := by
  simp [get?, set, h]

theorem find?_filter_ne {nodes : List (List String × Node)} {place other : List String}
    (h : other ≠ place) :
    (nodes.filter (·.1 != place)).find? (·.1 == other) = nodes.find? (·.1 == other) := by
  induction nodes with
  | nil => rfl
  | cons n rest ih =>
    by_cases hp : n.1 = place
    · simp [hp, Ne.symm h, ih]
    · by_cases ho : n.1 = other
      · simp [ho, h]
      · simp [hp, ho, ih]

theorem get?_set_of_ne {d : Disk} {place other : List String} (node : Node) (h : other ≠ place) :
    (d.set place node).get? other = d.get? other := by
  by_cases ho : other = []
  · simp [get?, ho]
  · simp [get?, set, ho, Ne.symm h, find?_filter_ne h]

theorem get?_erase_of_ne {d : Disk} {place other : List String} (h : other ≠ place) :
    (d.erase place).get? other = d.get? other := by
  by_cases ho : other = []
  · simp [get?, ho]
  · simp [get?, erase, ho, find?_filter_ne h]

theorem get?_erase_self {d : Disk} {place : List String} (h : place ≠ []) :
    (d.erase place).get? place = none := by
  simp [get?, erase, h]

/-! ## Finding places -/

/-- Where a path leads. -/
inductive Found
  | there (place : List String) (node : Node)
  /-- The directory exists, but nothing of the last name in it. -/
  | absent (place : List String)
  | fault (f : OsFault)
  deriving DecidableEq, Repr, Inhabited

/-- Follows the parts of a path from a place. -/
def walk (d : Disk) (place : List String) (node : Node) : List String → Found
  | [] => .there place node
  | part :: rest =>
    match node with
    | .file _ => .fault .notDirectory
    | .directory =>
      if part = ".." then walk d place.dropLast .directory rest
      else
        match d.get? (place ++ [part]) with
        | some next => walk d (place ++ [part]) next rest
        | none => if rest.isEmpty then .absent (place ++ [part]) else .fault .noSuchFile

def find (d : Disk) (p : DiskPath) : Found :=
  d.walk (if p.root.isEmpty then d.home else []) .directory p.parts

/-! ## Operations -/

def isFile (d : Disk) (p : DiskPath) : Bool :=
  match d.find p with
  | .there _ (.file _) => true
  | _ => false

def isDirectory (d : Disk) (p : DiskPath) : Bool :=
  match d.find p with
  | .there _ .directory => true
  | _ => false

def read (d : Disk) (p : DiskPath) : Except OsFault (List UInt8) :=
  match d.find p with
  | .there _ (.file bytes) => .ok bytes
  | .there _ .directory => .error .isDirectory
  | .absent _ => .error .noSuchFile
  | .fault f => .error f

def makeDirectory (d : Disk) (p : DiskPath) : Except OsFault Disk :=
  match d.find p with
  | .there _ _ => .error .fileExists
  | .absent place => .ok (d.set place .directory)
  | .fault f => .error f

/-- The longest name on the disk. -/
def longestName (d : Disk) : Nat :=
  d.nodes.foldl (fun n node => max n ((node.1.getLast?.map String.length).getD 0)) 0

/-- A name for a temporary file, longer than any name on the disk. -/
def temporaryName (d : Disk) (name : String) : String :=
  "." ++ name ++ "." ++ String.ofList (List.replicate d.longestName 'x') ++ ".tmp"

def createTemporary (d : Disk) (target : DiskPath) : Except OsFault (DiskPath × Disk) :=
  let temporary := target.parent.join (d.temporaryName target.name)
  match d.find temporary with
  | .absent place => .ok (temporary, d.set place (.file []))
  | .there _ _ => .error .fileExists
  | .fault f => .error f

def writeTemporary (d : Disk) (temporary : DiskPath) (bytes : List UInt8) : Except OsFault Disk :=
  match d.find temporary with
  | .there place (.file _) => .ok (d.set place (.file bytes))
  | .there _ .directory => .error .isDirectory
  | .absent _ => .error .noSuchFile
  | .fault f => .error f

/-- Moves the temporary file to the place of the target, which is no directory. -/
def replace (d : Disk) (temporary target : DiskPath) : Except OsFault Disk :=
  match d.find temporary, d.find target with
  | .there source (.file bytes), .there place (.file _)
  | .there source (.file bytes), .absent place => .ok ((d.erase source).set place (.file bytes))
  | .there _ _, .there _ .directory => .error .isDirectory
  | .there _ .directory, _ => .error .notDirectory
  | .there _ _, .fault f => .error f
  | .absent _, _ => .error .noSuchFile
  | .fault f, _ => .error f

def discard (d : Disk) (temporary : DiskPath) : Disk :=
  match d.find temporary with
  | .there place (.file _) => d.erase place
  | _ => d

/-! ## Building and listing -/

/-- Every directory above a place, from the root down. -/
def above (place : List String) : List (List String) :=
  (List.range place.length).map fun n => place.take n

def addDirectory (d : Disk) (place : List String) : Disk :=
  match d.get? place with
  | some _ => d
  | none => d.set place .directory

/-- The disk with a file or directory below the working directory, and the directories above. -/
def add (d : Disk) (p : DiskPath) (node : Node) : Disk :=
  let place := d.home ++ p.parts
  ((above place).foldl addDirectory d).set place node

def empty (home : List String) : Disk :=
  (above home ++ [home]).foldl addDirectory { home }

/-- The files below the working directory. -/
def files (d : Disk) : List (String × List UInt8) :=
  d.nodes.filterMap fun n =>
    match n.2 with
    | .directory => none
    | .file bytes =>
      if d.home.isPrefixOf n.1 then
        some (String.intercalate "/" (n.1.drop d.home.length), bytes)
      else none

end Disk

end EndpointDsl
