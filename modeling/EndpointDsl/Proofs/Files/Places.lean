import EndpointDsl.Files.Disk
import EndpointDsl.Proofs.Lists

/-!
Where paths lead on a disk, and what stays as it was when something changes.

A path is followed through directories only, so it leads to the same directory as long as
directories stay.  The name of a temporary file is longer than any name on the disk, so nothing has
it.
-/

namespace EndpointDsl

/-- A path one part below another. -/
def DiskPath.child (p : DiskPath) (name : String) : DiskPath :=
  { p with parts := p.parts ++ [name] }

/-! ## Names of files -/

/-- A name of a file: one part of a path, which leads down. -/
structure IsFilename (name : String) : Prop where
  plain : '/' ∉ name.toList
  nonempty : name.toList ≠ []
  notHere : name ≠ "."
  notUp : name ≠ ".."

theorem IsFilename.join {name : String} (h : IsFilename name) (p : DiskPath) :
    p.join name = p.child name := by
  have hsplit : name.toList.splitOn '/' = [name.toList] := by
    refine List.splitOnP_eq_singleton fun c hc => beq_false_of_ne ?_
    rintro rfl
    exact h.plain hc
  have hparts : DiskPath.partsOf name = [name] := by
    rw [DiskPath.partsOf, hsplit, List.filterMap_cons, if_neg, String.ofList_toList]
    · rfl
    · have hdot : name.toList ≠ ['.'] := fun heq => h.notHere (String.toList_inj.mp heq)
      rw [Bool.or_eq_true, List.isEmpty_iff, beq_iff_eq]
      exact not_or.mpr ⟨h.nonempty, hdot⟩
  have hroot : DiskPath.rootOf name.toList = "" := by
    cases hlist : name.toList with
    | nil => rfl
    | cons c rest =>
      have hc : (c == '/') = false := beq_false_of_ne fun heq => h.plain (by simp [hlist, heq])
      rw [DiskPath.rootOf, List.takeWhile_cons, hc]
      rfl
  rw [DiskPath.join, DiskPath.ofText, hparts, hroot]
  rfl

namespace DiskPath

variable (p : DiskPath) (name : String)

@[simp] theorem parent_child : (p.child name).parent = p := by simp [parent, child]

@[simp] theorem name_child : (p.child name).name = name := by simp [DiskPath.name, child]

theorem child_injective : Function.Injective p.child := by
  intro name other heq
  have hparts := congrArg DiskPath.parts heq
  exact List.singleton_injective (List.append_cancel_left hparts)

end DiskPath

namespace Disk

variable {d d' d'' : Disk} {place parts dir : List String}

/-! ## Changes -/

/-- The octets of the file at a place. -/
def file? (d : Disk) (place : List String) : Option (List UInt8) :=
  match d.get? place with
  | some (.file bytes) => some bytes
  | _ => none

theorem get?_of_file? {bytes : List UInt8} (h : d.file? place = some bytes) :
    d.get? place = some (.file bytes) := by
  unfold file? at h
  split at h
  · next hnode => cases h; exact hnode
  · cases h

/-- Two disks are the same except at some places. -/
structure Agrees (d d' : Disk) (written : List (List String)) : Prop where
  home : d'.home = d.home
  nodes : ∀ place, place ∉ written → d'.get? place = d.get? place

/-- Directories are where nothing was, and that is all that has changed. -/
structure Grows (d d' : Disk) : Prop where
  home : d'.home = d.home
  nodes : ∀ place, d'.get? place = d.get? place ∨
    d.get? place = none ∧ d'.get? place = some .directory

/-- Directories are still there. -/
structure Keeps (d d' : Disk) : Prop where
  home : d'.home = d.home
  directories : ∀ place, d.get? place = some .directory → d'.get? place = some .directory

theorem Agrees.refl (d : Disk) (written : List (List String)) : d.Agrees d written :=
  ⟨rfl, fun _ _ => rfl⟩

theorem Agrees.symm {written : List (List String)} (h : d.Agrees d' written) :
    d'.Agrees d written :=
  ⟨h.home.symm, fun place hplace => (h.nodes place hplace).symm⟩

theorem Agrees.trans {written others : List (List String)} (h : d.Agrees d' written)
    (h' : d'.Agrees d'' others) : d.Agrees d'' (written ++ others) := by
  refine ⟨h'.home.trans h.home, fun place hplace => ?_⟩
  rw [List.mem_append, not_or] at hplace
  exact (h'.nodes place hplace.2).trans (h.nodes place hplace.1)

theorem Agrees.of_subset {written others : List (List String)} (h : d.Agrees d' written)
    (hsubset : written ⊆ others) : d.Agrees d' others :=
  ⟨h.home, fun place hplace => h.nodes place fun hmem => hplace (hsubset hmem)⟩

/-- Places that hold again what they held need no exception. -/
theorem Agrees.of_restored {written others : List (List String)}
    (h : d.Agrees d' (written ++ others))
    (hsame : ∀ place ∈ written, d'.get? place = d.get? place) : d.Agrees d' others := by
  refine ⟨h.home, fun place hplace => ?_⟩
  by_cases hwritten : place ∈ written
  · exact hsame place hwritten
  · exact h.nodes place (by rw [List.mem_append]; exact not_or.mpr ⟨hwritten, hplace⟩)

theorem agrees_set (d : Disk) (place : List String) (node : Node) :
    d.Agrees (d.set place node) [place] :=
  ⟨rfl, fun _ hother => get?_set_of_ne node (mt List.mem_singleton.mpr hother)⟩

theorem agrees_erase (d : Disk) (place : List String) : d.Agrees (d.erase place) [place] :=
  ⟨rfl, fun _ hother => get?_erase_of_ne (mt List.mem_singleton.mpr hother)⟩

theorem Agrees.keeps {written : List (List String)} (h : d.Agrees d' written)
    (hfree : ∀ place ∈ written, d.get? place ≠ some .directory) : d.Keeps d' := by
  refine ⟨h.home, fun place hplace => ?_⟩
  rw [h.nodes place fun hmem => hfree place hmem hplace, hplace]

theorem Agrees.keeps_of_nil (h : d.Agrees d' []) : d.Keeps d' := h.keeps (List.forall_mem_nil _)

theorem Agrees.file?_eq {written : List (List String)} (h : d.Agrees d' written)
    (hplace : place ∉ written) : d'.file? place = d.file? place := by
  rw [file?, h.nodes place hplace, file?]

theorem Grows.refl (d : Disk) : d.Grows d := ⟨rfl, fun _ => Or.inl rfl⟩

theorem Grows.trans (h : d.Grows d') (h' : d'.Grows d'') : d.Grows d'' := by
  refine ⟨h'.home.trans h.home, fun place => ?_⟩
  rcases h'.nodes place with heq | ⟨hnone, hdir⟩
  · rw [heq]
    exact h.nodes place
  · rcases h.nodes place with heq | ⟨-, hthere⟩
    · exact Or.inr ⟨heq ▸ hnone, hdir⟩
    · rw [hthere] at hnone
      cases hnone

theorem Grows.keeps (h : d.Grows d') : d.Keeps d' := by
  refine ⟨h.home, fun place hplace => ?_⟩
  rcases h.nodes place with heq | ⟨-, hdir⟩
  · rw [heq, hplace]
  · exact hdir

theorem Grows.file?_eq (h : d.Grows d') (place : List String) :
    d'.file? place = d.file? place := by
  unfold file?
  rcases h.nodes place with heq | ⟨hnone, hdir⟩
  · rw [heq]
  · rw [hnone, hdir]

theorem grows_set (h : d.get? place = none) (hne : place ≠ []) :
    d.Grows (d.set place .directory) := by
  refine ⟨rfl, fun other => ?_⟩
  by_cases heq : other = place
  · subst heq
    exact Or.inr ⟨h, get?_set_self _ hne⟩
  · exact Or.inl (get?_set_of_ne _ heq)

theorem Keeps.trans (h : d.Keeps d') (h' : d'.Keeps d'') : d.Keeps d'' :=
  ⟨h'.home.trans h.home, fun place hplace => h'.directories place (h.directories place hplace)⟩

/-! ## Following paths -/

/-- Where the parts of a path lead from a directory, if it is to a directory or to a place in one
where nothing is. -/
inductive Follows (d : Disk) : List String → List String → Found → Prop
  | here (place : List String) : Follows d place [] (.there place .directory)
  | absent {place : List String} {part : String} : part ≠ ".." →
      d.get? (place ++ [part]) = none → Follows d place [part] (.absent (place ++ [part]))
  | up {place rest : List String} {found : Found} : Follows d place.dropLast rest found →
      Follows d place (".." :: rest) found
  | down {place rest : List String} {part : String} {found : Found} : part ≠ ".." →
      d.get? (place ++ [part]) = some .directory → Follows d (place ++ [part]) rest found →
      Follows d place (part :: rest) found

theorem follows_of_walk {found : Found} (h : d.walk place .directory parts = found)
    (hfile : ∀ place bytes, found ≠ .there place (.file bytes))
    (hfault : ∀ fault, found ≠ .fault fault) : d.Follows place parts found := by
  induction parts generalizing place with
  | nil =>
    rw [← h]
    exact .here place
  | cons part rest ih =>
    rw [walk] at h
    by_cases hup : part = ".."
    · subst hup
      rw [if_pos rfl] at h
      exact .up (ih h)
    · rw [if_neg hup] at h
      cases hnext : d.get? (place ++ [part]) with
      | none =>
        rw [hnext] at h
        cases rest with
        | nil => exact h ▸ .absent hup hnext
        | cons next more => exact absurd h.symm (hfault _)
      | some node =>
        rw [hnext] at h
        cases node with
        | directory => exact .down hup hnext (ih h)
        | file bytes =>
          cases rest with
          | nil => exact absurd h.symm (hfile _ _)
          | cons next more => exact absurd h.symm (hfault _)

/-- Beyond a directory a path goes on from there. -/
theorem Follows.walk_append (h : d.Follows place parts (.there dir .directory))
    (rest : List String) :
    d.walk place .directory (parts ++ rest) = d.walk dir .directory rest := by
  generalize hfound : Found.there dir .directory = found at h
  induction h with
  | here place =>
    cases hfound
    rfl
  | absent => cases hfound
  | up _ ih => rw [List.cons_append, walk, if_pos rfl, ih hfound]
  | down hpart hnext _ ih =>
    rw [List.cons_append, walk, if_neg hpart, hnext]
    exact ih hfound

/-- A path to a directory leads there as long as directories stay directories. -/
theorem Follows.keeps (h : d.Follows place parts (.there dir .directory)) (hkeeps : d.Keeps d') :
    d'.walk place .directory parts = .there dir .directory := by
  generalize hfound : Found.there dir .directory = found at h
  induction h with
  | here place =>
    cases hfound
    rfl
  | absent => cases hfound
  | up _ ih => rw [walk, if_pos rfl, ih hfound]
  | down hpart hnext _ ih =>
    rw [walk, if_neg hpart, hkeeps.directories _ hnext]
    exact ih hfound

/-- A path to a place where nothing is leads to a directory that is made there. -/
theorem Follows.set_absent {slot : List String} (h : d.Follows place parts (.absent slot)) :
    slot ≠ [] ∧ d.get? slot = none ∧
      (d.set slot .directory).walk place .directory parts = .there slot .directory := by
  generalize hfound : Found.absent slot = found at h
  induction h with
  | here => cases hfound
  | absent hpart hnext =>
    cases hfound
    have hne : ∀ {place : List String} {part : String}, place ++ [part] ≠ [] := by simp
    refine ⟨hne, hnext, ?_⟩
    rw [walk, if_neg hpart, get?_set_self _ hne]
    rfl
  | up _ ih =>
    obtain ⟨hne, hnone, hwalk⟩ := ih hfound
    exact ⟨hne, hnone, by rw [walk, if_pos rfl, hwalk]⟩
  | @down place rest part found hpart hnext _ ih =>
    obtain ⟨hne, hnone, hwalk⟩ := ih hfound
    refine ⟨hne, hnone, ?_⟩
    have hother : place ++ [part] ≠ slot := by
      rintro rfl
      rw [hnone] at hnext
      cases hnext
    rw [walk, if_neg hpart, get?_set_of_ne _ hother, hnext]
    exact hwalk

/-- A path below another leads to a directory only if that one does. -/
theorem walk_of_walk_append {part : String} {place' : List String}
    (h : d.walk place .directory (parts ++ [part]) = .there place' .directory) :
    ∃ dir, d.walk place .directory parts = .there dir .directory := by
  induction parts generalizing place with
  | nil => exact ⟨place, rfl⟩
  | cons next rest ih =>
    rw [List.cons_append, walk] at h
    rw [walk]
    split at h
    · next hup =>
      rw [if_pos hup]
      exact ih h
    · next hdown =>
      rw [if_neg hdown]
      cases hnext : d.get? (place ++ [next]) with
      | none =>
        rw [hnext] at h
        cases rest <;> cases h
      | some node =>
        rw [hnext] at h
        cases node with
        | directory => exact ih h
        | file bytes => cases rest <;> cases h

/-! ## Finding directories and what is in them -/

section

variable {p : DiskPath}

/-- The path leads to a directory. -/
def LeadsTo (d : Disk) (p : DiskPath) (dir : List String) : Prop :=
  d.find p = .there dir .directory

theorem LeadsTo.unique {other : List String} (h : d.LeadsTo p dir) (h' : d.LeadsTo p other) :
    other = dir := by
  have heq := h'.symm.trans h
  cases heq
  rfl

theorem LeadsTo.keeps (h : d.LeadsTo p dir) (hkeeps : d.Keeps d') : d'.LeadsTo p dir := by
  rw [LeadsTo, find, hkeeps.home]
  exact (follows_of_walk h nofun nofun).keeps hkeeps

theorem LeadsTo.find_child (h : d.LeadsTo p dir) {name : String} (hname : name ≠ "..") :
    d.find (p.child name) =
      match d.get? (dir ++ [name]) with
      | some node => .there (dir ++ [name]) node
      | none => .absent (dir ++ [name]) := by
  refine ((follows_of_walk h nofun nofun).walk_append [name]).trans ?_
  rw [walk, if_neg hname]
  cases d.get? (dir ++ [name]) <;> rfl

theorem LeadsTo.find_file (h : d.LeadsTo p dir) {name : String} (hname : name ≠ "..")
    {bytes : List UInt8} (hfile : d.get? (dir ++ [name]) = some (.file bytes)) :
    d.find (p.child name) = .there (dir ++ [name]) (.file bytes) := by
  rw [h.find_child hname, hfile]

theorem isDirectory_iff : d.isDirectory p = true ↔ ∃ dir, d.LeadsTo p dir := by
  unfold isDirectory LeadsTo
  split
  · next dir hfind => exact ⟨fun _ => ⟨dir, hfind⟩, fun _ => rfl⟩
  · next hnot => exact ⟨nofun, fun ⟨dir, hfind⟩ => absurd hfind (hnot dir)⟩

/-- Only below a directory is there another one. -/
theorem leadsTo_of_child {name : String} {place : List String}
    (h : d.LeadsTo (p.child name) place) : ∃ dir, d.LeadsTo p dir :=
  walk_of_walk_append h

theorem makeDirectory_eq_ok (h : d.makeDirectory p = .ok d') :
    d.Grows d' ∧ ∃ dir, d'.LeadsTo p dir := by
  unfold makeDirectory at h
  split at h
  · cases h
  · next slot hfind =>
    cases h
    obtain ⟨hne, hnone, hwalk⟩ := (follows_of_walk hfind nofun nofun).set_absent
    exact ⟨grows_set hnone hne, slot, hwalk⟩
  · cases h

/-- A directory that cannot be made for want of those above it is not there. -/
theorem makeDirectory_noSuchFile (h : d.makeDirectory p = .error .noSuchFile) :
    ¬ ∃ dir, d.LeadsTo p dir := by
  rintro ⟨dir, hdir⟩
  rw [makeDirectory, hdir] at h
  cases h

end

/-! ## Temporary files -/

theorem le_foldl_max {α : Type} (key : α → Nat) (xs : List α) (start : Nat) :
    start ≤ xs.foldl (fun n x => max n (key x)) start ∧
      ∀ x ∈ xs, key x ≤ xs.foldl (fun n x => max n (key x)) start := by
  induction xs generalizing start with
  | nil => exact ⟨Nat.le_refl start, nofun⟩
  | cons x rest ih =>
    obtain ⟨hstart, hrest⟩ := ih (max start (key x))
    refine ⟨Nat.le_trans (Nat.le_max_left _ _) hstart, List.forall_mem_cons.mpr ⟨?_, hrest⟩⟩
    exact Nat.le_trans (Nat.le_max_right _ _) hstart

theorem le_longestName {name : String} {node : Node} (h : d.get? (dir ++ [name]) = some node) :
    name.length ≤ d.longestName := by
  have hne : (dir ++ [name]).isEmpty = false := by simp
  rw [get?, hne, if_neg Bool.false_ne_true, Option.map_eq_some_iff] at h
  obtain ⟨n, hn, -⟩ := h
  have hfound := List.find?_some hn
  have hplace : n.1 = dir ++ [name] := beq_iff_eq.mp hfound
  have hle := (le_foldl_max (fun n : List String × Node =>
    (n.1.getLast?.map String.length).getD 0) d.nodes 0).2 n (List.mem_of_find?_eq_some hn)
  rw [hplace, List.getLast?_concat] at hle
  exact hle

theorem length_temporaryName (d : Disk) (name : String) :
    (d.temporaryName name).length = name.length + d.longestName + 6 := by
  simp only [temporaryName, String.length_append, String.length_ofList, List.length_replicate]
  have hdot : ".".length = 1 := rfl
  have htmp : ".tmp".length = 4 := rfl
  omega

/-- Nothing has the name of a temporary file. -/
theorem get?_temporaryName (d : Disk) (dir : List String) (name : String) :
    d.get? (dir ++ [d.temporaryName name]) = none := by
  cases hnode : d.get? (dir ++ [d.temporaryName name]) with
  | none => rfl
  | some node =>
    have hle := le_longestName hnode
    rw [length_temporaryName] at hle
    omega

theorem temporaryName_ne (d : Disk) (name : String) : d.temporaryName name ≠ name := by
  intro heq
  have hlength := congrArg String.length heq
  rw [length_temporaryName] at hlength
  omega

theorem isFilename_temporaryName (d : Disk) {name : String} (h : IsFilename name) :
    IsFilename (d.temporaryName name) := by
  have hlong := length_temporaryName d name
  refine ⟨?_, fun hnil => ?_, fun heq => ?_, fun heq => ?_⟩
  · simp only [temporaryName, String.toList_append, String.toList_ofList, List.mem_append,
      List.mem_replicate, not_or]
    refine ⟨⟨⟨⟨by decide, h.plain⟩, by decide⟩, fun hx => ?_⟩, by decide⟩
    exact absurd hx.2 (by decide)
  · rw [← String.length_toList, hnil] at hlong
    cases hlong
  · rw [heq] at hlong
    have hdot : ".".length = 1 := rfl
    omega
  · rw [heq] at hlong
    have hdots : "..".length = 2 := rfl
    omega

section

variable {p : DiskPath} {name : String}

/-- A temporary file is made where nothing was. -/
theorem createTemporary_eq (h : d.LeadsTo p dir) (hname : IsFilename name) :
    d.createTemporary (p.child name) =
      .ok (p.child (d.temporaryName name), d.set (dir ++ [d.temporaryName name]) (.file [])) := by
  have htemporary := isFilename_temporaryName d hname
  rw [createTemporary, DiskPath.parent_child, DiskPath.name_child, htemporary.join,
    h.find_child htemporary.notUp, get?_temporaryName]

/-- The temporary file is moved to a name in the same directory, unless that is a directory. -/
theorem replace_eq {temporary : String} {bytes : List UInt8} (h : d.LeadsTo p dir)
    (htemporary : temporary ≠ "..") (hname : name ≠ "..")
    (hfile : d.get? (dir ++ [temporary]) = some (.file bytes)) :
    d.replace (p.child temporary) (p.child name) =
      if d.get? (dir ++ [name]) = some .directory then .error .isDirectory
      else .ok ((d.erase (dir ++ [temporary])).set (dir ++ [name]) (.file bytes)) := by
  rw [replace, h.find_file htemporary hfile, h.find_child hname]
  rcases d.get? (dir ++ [name]) with - | (- | old) <;> rfl

end

end Disk
end EndpointDsl
