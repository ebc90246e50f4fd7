/-!
Names of files and directories.

A path is a list of parts, read from the working directory or, if it starts with a slash, from
the root.  Empty parts and single dots are dropped when a path is read; two dots stay, because
what they mean depends on the directories that exist.
-/

namespace EndpointDsl

structure DiskPath where
  /-- What stands before the parts: nothing, or the slashes of the root. -/
  root : String := ""
  parts : List String
  deriving DecidableEq, Repr, Inhabited

namespace DiskPath

/-- One slash or many are the root, but exactly two are a root of their own. -/
def rootOf (cs : List Char) : String :=
  match (cs.takeWhile (· == '/')).length with
  | 0 => ""
  | 2 => "//"
  | _ => "/"

def partsOf (s : String) : List String :=
  (s.toList.splitOn '/').filterMap fun p =>
    if p.isEmpty || p == ['.'] then none else some (String.ofList p)

def ofText (s : String) : DiskPath := { root := rootOf s.toList, parts := partsOf s }

def text (p : DiskPath) : String :=
  if p.root.isEmpty && p.parts.isEmpty then "." else p.root ++ String.intercalate "/" p.parts

/-- A path below another; one that starts at the root stands for itself. -/
def join (p : DiskPath) (s : String) : DiskPath :=
  let q := ofText s
  if q.root.isEmpty then { p with parts := p.parts ++ q.parts } else q

def parent (p : DiskPath) : DiskPath := { p with parts := p.parts.dropLast }

def name (p : DiskPath) : String := p.parts.getLast?.getD ""

end DiskPath

end EndpointDsl
