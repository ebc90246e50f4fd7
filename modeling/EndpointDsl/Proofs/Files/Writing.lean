import EndpointDsl.Host.Scripted
import EndpointDsl.Proofs.Files.Places

/-!
What is on a disk after files were written, up to the first operation that failed.

Writing a file makes directories where nothing was, puts a temporary file where nothing was, and
moves that file to a place that holds no directory.  Before the move everything else on the disk is
as it was, so a failure leaves no trace once the temporary file is removed.  Files of different
names in one directory all keep what was written to them.
-/

namespace EndpointDsl

open FileStore

/-! ## Operations that may fail -/

section

variable {α β : Type} {h : ScriptedHost}
  {good good' : α → ScriptedHost → Prop} {bad bad' : OsError → ScriptedHost → Prop}

/-- How an operation ends: with a value and one thing that holds of the host, or with a failure and
another thing.  It is irreducible, so that applying a lemma about it does not run the operation. -/
@[irreducible]
def Ends (operation : StateM ScriptedHost (Except OsError α)) (h : ScriptedHost)
    (good : α → ScriptedHost → Prop) (bad : OsError → ScriptedHost → Prop) : Prop :=
  match operation.run h with
  | (.ok a, h') => good a h'
  | (.error e, h') => bad e h'

variable {operation : StateM ScriptedHost (Except OsError α)}

theorem ends_ok_iff {a : α} {h' : ScriptedHost} (hrun : operation.run h = (.ok a, h')) :
    Ends operation h good bad ↔ good a h' := by
  rw [Ends, hrun]

theorem ends_error_iff {e : OsError} {h' : ScriptedHost}
    (hrun : operation.run h = (.error e, h')) : Ends operation h good bad ↔ bad e h' := by
  rw [Ends, hrun]

theorem ends_bind_ok_iff {action : StateM ScriptedHost Unit} {a : α} :
    Ends (do action; return .ok a) h good bad ↔ good a (action.run h).2 :=
  ends_ok_iff rfl

theorem ends_congr {operation' : StateM ScriptedHost (Except OsError α)} {h' : ScriptedHost}
    (hrun : operation.run h = operation'.run h') :
    Ends operation h good bad ↔ Ends operation' h' good bad := by
  rw [Ends, Ends, hrun]

theorem Ends.imp (h₁ : Ends operation h good bad) (hgood : ∀ a h', good a h' → good' a h')
    (hbad : ∀ e h', bad e h' → bad' e h') : Ends operation h good' bad' := by
  rcases hrun : operation.run h with ⟨e | a, h'⟩
  · rw [ends_error_iff hrun] at h₁ ⊢
    exact hbad e h' h₁
  · rw [ends_ok_iff hrun] at h₁ ⊢
    exact hgood a h' h₁

theorem Ends.andThen {next : α → StateM ScriptedHost (Except OsError β)}
    {last : β → ScriptedHost → Prop} (h₁ : Ends operation h good bad)
    (h₂ : ∀ a h', good a h' → Ends (next a) h' last bad) :
    Ends (FileStore.andThen operation next) h last bad := by
  rcases hrun : operation.run h with ⟨e | a, h'⟩
  · have hstep : (FileStore.andThen operation next).run h = (.error e, h') := by
      rw [FileStore.andThen, StateT.run_bind, hrun]
      rfl
    rw [ends_error_iff hrun] at h₁
    rwa [ends_error_iff hstep]
  · have hstep : (FileStore.andThen operation next).run h = (next a).run h' := by
      rw [FileStore.andThen, StateT.run_bind, hrun]
      rfl
    rw [ends_ok_iff hrun] at h₁
    exact (ends_congr hstep).mpr (h₂ a h' h₁)

theorem Ends.rescue {handle : OsError → StateM ScriptedHost (Except OsError α)}
    (h₁ : Ends operation h good bad) (h₂ : ∀ e h', bad e h' → Ends (handle e) h' good bad') :
    Ends (FileStore.rescue operation handle) h good bad' := by
  rcases hrun : operation.run h with ⟨e | a, h'⟩
  · have hstep : (FileStore.rescue operation handle).run h = (handle e).run h' := by
      rw [FileStore.rescue, StateT.run_bind, hrun]
      rfl
    rw [ends_error_iff hrun] at h₁
    exact (ends_congr hstep).mpr (h₂ e h' h₁)
  · have hstep : (FileStore.rescue operation handle).run h = (.ok a, h') := by
      rw [FileStore.rescue, StateT.run_bind, hrun]
      rfl
    rw [ends_ok_iff hrun] at h₁
    rwa [ends_ok_iff hstep]

namespace ScriptedHost

variable {onFault : OsFault → OsError} {operation : Disk → Except OsFault (α × Disk)}

theorem ends_perform (hok : ∀ a d, operation h.disk = .ok (a, d) → good a { h with disk := d })
    (hfault : ∀ f, operation h.disk = .error f → bad (onFault f) h) :
    Ends (perform onFault operation) h good bad := by
  rcases hdisk : operation h.disk with f | ⟨a, d⟩
  · have hstep : (perform onFault operation).run h = (.error (onFault f), h) := by
      simp only [perform, StateT.run_bind, StateT.run_get, pure_bind, hdisk]
      rfl
    exact (ends_error_iff hstep).mpr (hfault f hdisk)
  · have hstep : (perform onFault operation).run h = (.ok a, { h with disk := d }) := by
      simp only [perform, StateT.run_bind, StateT.run_get, pure_bind, hdisk]
      rfl
    exact (ends_ok_iff hstep).mpr (hok a d hdisk)

/-- An operation on a temporary file breaks down, if its turn has come, or is performed. -/
theorem ends_attempt {broken : Nat → Disk → Disk}
    (hdue : ∀ b, h.breakdown = some b → b.after = 0 → bad (onFault brokenFault)
      { h with breakdown := none, disk := broken b.torn h.disk })
    (hgo : (∀ b ∈ h.breakdown, b.after ≠ 0) → Ends (perform onFault operation)
      { h with breakdown := h.breakdown.map Breakdown.later } good bad) :
    Ends (attempt onFault broken operation) h good bad := by
  rcases hbreakdown : h.breakdown with - | b
  · have hstep : (attempt onFault broken operation).run h =
        (perform onFault operation).run { h with breakdown := h.breakdown.map Breakdown.later } := by
      simp only [attempt, StateT.run_bind, StateT.run_get, pure_bind, hbreakdown, Option.map_none]
      rw [← hbreakdown]
    refine (ends_congr hstep).mpr (hgo fun b hb => ?_)
    rw [hbreakdown] at hb
    cases hb
  · by_cases hafter : b.after = 0
    · have hstep : (attempt onFault broken operation).run h =
          (.error (onFault brokenFault),
            { h with breakdown := none, disk := broken b.torn h.disk }) := by
        simp only [attempt, StateT.run_bind, StateT.run_get, pure_bind, hbreakdown, hafter]
        rfl
      exact (ends_error_iff hstep).mpr (hdue b hbreakdown hafter)
    · have hstep : (attempt onFault broken operation).run h =
          (perform onFault operation).run
            { h with breakdown := h.breakdown.map Breakdown.later } := by
        simp only [attempt, StateT.run_bind, StateT.run_get, pure_bind, hbreakdown, hafter]
        rfl
      refine (ends_congr hstep).mpr (hgo fun b' hb' => ?_)
      rw [hbreakdown] at hb'
      cases hb'
      exact hafter

end ScriptedHost
end

/-! ## Directories -/

section

open ScriptedHost (ends_perform ends_attempt)

variable {h h' h'' : ScriptedHost} {p : DiskPath}

/-- Directories were made, perhaps, and nothing else was done. -/
structure MadeDirectories (h h' : ScriptedHost) : Prop where
  grows : h.disk.Grows h'.disk
  breakdown : h'.breakdown = h.breakdown

theorem MadeDirectories.refl (h : ScriptedHost) : MadeDirectories h h := ⟨.refl _, rfl⟩

theorem MadeDirectories.trans (h₁ : MadeDirectories h h') (h₂ : MadeDirectories h' h'') :
    MadeDirectories h h'' :=
  ⟨h₁.grows.trans h₂.grows, h₂.breakdown.trans h₁.breakdown⟩

/-- A path leads to a directory. -/
def ScriptedHost.Reaches (h : ScriptedHost) (p : DiskPath) : Prop := ∃ dir, h.disk.LeadsTo p dir

theorem ends_makeDirectory (h : ScriptedHost) (p : DiskPath) :
    Ends (makeDirectory p) h (fun _ h' => MadeDirectories h h' ∧ h'.Reaches p)
      (fun e h' => h' = h ∧ (e.fault = .noSuchFile → ¬ h.Reaches p)) := by
  refine ends_perform (fun a d hok => ?_) fun f hfault => ⟨rfl, ?_⟩
  · obtain ⟨made, hmade, hpair⟩ := map_eq_ok_iff.mp hok
    cases hpair
    obtain ⟨hgrows, hreaches⟩ := Disk.makeDirectory_eq_ok hmade
    exact ⟨⟨hgrows, rfl⟩, hreaches⟩
  · rintro (rfl : f = .noSuchFile)
    refine Disk.makeDirectory_noSuchFile ?_
    cases hmade : h.disk.makeDirectory p with
    | ok d => rw [hmade] at hfault; cases hfault
    | error f => rw [hmade] at hfault; cases hfault; rfl

theorem ends_unlessDirectory (h : ScriptedHost) (p : DiskPath) (e : OsError) :
    Ends (unlessDirectory p e) h (fun _ h' => h' = h ∧ h.Reaches p)
      (fun _ h' => h' = h ∧ ¬ h.Reaches p) := by
  have hstep : (unlessDirectory p e : StateM ScriptedHost _).run h =
      (if h.disk.isDirectory p then .ok () else .error e, h) := rfl
  have hiff : h.disk.isDirectory p = true ↔ h.Reaches p := Disk.isDirectory_iff
  by_cases hdir : h.disk.isDirectory p
  · rw [if_pos hdir] at hstep
    exact (ends_ok_iff hstep).mpr ⟨rfl, hiff.mp hdir⟩
  · rw [if_neg hdir] at hstep
    exact (ends_error_iff hstep).mpr ⟨rfl, mt hiff.mpr hdir⟩

/-- Directories are made where nothing was, and if there is no failure the path leads to one.  If
there is one, the path does not. -/
theorem ends_makeDirectoriesFrom (h : ScriptedHost) (root : String) (parts : List String) :
    Ends (makeDirectoriesFrom root parts) h
      (fun _ h' => MadeDirectories h h' ∧ h'.Reaches { root, parts := parts.reverse })
      (fun _ h' => MadeDirectories h h' ∧ ¬ h'.Reaches { root, parts := parts.reverse }) := by
  have hunless : ∀ p e h, Ends (unlessDirectory p e) h
      (fun _ h' => MadeDirectories h h' ∧ h'.Reaches p)
      (fun _ h' => MadeDirectories h h' ∧ ¬ h'.Reaches p) := by
    intro p e h
    refine (ends_unlessDirectory h p e).imp ?_ ?_
    · rintro _ _ ⟨rfl, hreaches⟩
      exact ⟨.refl _, hreaches⟩
    · rintro _ _ ⟨rfl, hreaches⟩
      exact ⟨.refl _, hreaches⟩
  induction parts generalizing h with
  | nil =>
    refine (ends_makeDirectory h _).rescue ?_
    rintro e h ⟨rfl, -⟩
    exact hunless _ e h
  | cons part above ih =>
    refine (ends_makeDirectory h _).rescue ?_
    rintro e h ⟨rfl, hmissing⟩
    split
    · next hfault =>
      have habove : ∀ h' : ScriptedHost, h'.Reaches { root, parts := (part :: above).reverse } →
          h'.Reaches { root, parts := above.reverse } := by
        rintro h' ⟨place, hplace⟩
        rw [List.reverse_cons] at hplace
        exact @Disk.leadsTo_of_child _ { root, parts := above.reverse } part place hplace
      refine Ends.andThen ((ih h).imp (fun _ _ => id) ?_) ?_
      · rintro _ h' ⟨hmade, hnot⟩
        exact ⟨hmade, mt (habove h') hnot⟩
      · rintro _ middle ⟨hmade, -⟩
        refine Ends.rescue ((ends_makeDirectory middle _).imp ?_ fun _ _ => id) ?_
        · rintro _ h' ⟨hagain, hreaches⟩
          exact ⟨hmade.trans hagain, hreaches⟩
        · rintro e middle ⟨rfl, hmissing⟩
          split
          · next hfault => exact (ends_error_iff rfl).mpr ⟨hmade, hmissing hfault⟩
          · refine (hunless _ e middle).imp ?_ ?_
            · exact fun _ h' hend => ⟨hmade.trans hend.1, hend.2⟩
            · exact fun _ h' hend => ⟨hmade.trans hend.1, hend.2⟩
    · exact hunless _ e h

theorem ends_makeDirectories (h : ScriptedHost) (p : DiskPath) :
    Ends (makeDirectories p) h (fun _ h' => MadeDirectories h h' ∧ h'.Reaches p)
      (fun _ h' => MadeDirectories h h' ∧ ¬ h'.Reaches p) := by
  have hmade := ends_makeDirectoriesFrom h p.root p.parts.reverse
  rwa [List.reverse_reverse] at hmade

end

/-! ## Temporary files -/

/-- The operations on the temporary file of one file: it is created, written, flushed, synchronised,
closed and moved. -/
def fileOperations : Nat := 6

/-- The breakdown still to come after some operations that went well. -/
def Breakdown.laterBy (b : Breakdown) (n : Nat) : Breakdown := { b with after := b.after - n }

/-- A breakdown comes while one file is written. -/
def ScriptedHost.BreaksDown (h : ScriptedHost) : Prop := ∃ b ∈ h.breakdown, b.after < fileOperations

section

open ScriptedHost (attempt ends_perform ends_attempt noChange untouched tornWrite)

variable {ready h : ScriptedHost} {p : DiskPath} {dir slot : List String} {temporary name : String}
  {bytes : List UInt8}

/-- There is a temporary file where nothing was, and nothing else has changed. -/
structure Disk.Leftover (d d' : Disk) (slot : List String) : Prop where
  free : d.get? slot = none
  agrees : d.Agrees d' [slot]
  file : ∃ bytes, d'.get? slot = some (.file bytes)

theorem Disk.Leftover.leadsTo {d d' : Disk} (hleft : d.Leftover d' slot) (hd : d.LeadsTo p dir) :
    d'.LeadsTo p dir := by
  refine hd.keeps (hleft.agrees.keeps (List.forall_mem_singleton.mpr ?_))
  rw [hleft.free]
  exact nofun

/-- The temporary file is left over from an operation that broke down. -/
structure Spoilt (ready h : ScriptedHost) (slot : List String) : Prop where
  leftover : ready.disk.Leftover h.disk slot
  quiet : h.breakdown = none
  due : ready.BreaksDown

/-- Some operations on the temporary file, which holds some octets, went well. -/
structure Midway (ready h : ScriptedHost) (slot : List String) (bytes : List UInt8)
    (done : Nat) : Prop where
  free : ready.disk.get? slot = none
  agrees : ready.disk.Agrees h.disk [slot]
  file : h.disk.get? slot = some (.file bytes)
  breakdown : h.breakdown = ready.breakdown.map (·.laterBy done)
  going : ∀ b ∈ ready.breakdown, done ≤ b.after

theorem Midway.leftover {done : Nat} (hmid : Midway ready h slot bytes done) :
    ready.disk.Leftover h.disk slot :=
  ⟨hmid.free, hmid.agrees, bytes, hmid.file⟩

/-- What the breakdowns of an operation and of the first one are to each other. -/
theorem Midway.breakdown_cases {done : Nat} (hmid : Midway ready h slot bytes done) :
    (∀ b ∈ h.breakdown, b.after = 0 → ∃ b ∈ ready.breakdown, b.after = done) ∧
      ((∀ b ∈ h.breakdown, b.after ≠ 0) →
        h.breakdown.map Breakdown.later = ready.breakdown.map (·.laterBy (done + 1)) ∧
        ∀ b ∈ ready.breakdown, done + 1 ≤ b.after) := by
  have hgoing := hmid.going
  rw [hmid.breakdown]
  generalize ready.breakdown = pending at hgoing ⊢
  cases pending with
  | none => exact ⟨nofun, fun _ => ⟨rfl, nofun⟩⟩
  | some b =>
    have hle : done ≤ b.after := hgoing b rfl
    constructor
    · rintro _ ⟨⟩ hafter
      replace hafter : b.after - done = 0 := hafter
      exact ⟨b, rfl, by omega⟩
    · intro hmore
      have hafter : b.after - done ≠ 0 := hmore _ rfl
      refine ⟨?_, ?_⟩
      · show some { b with after := b.after - done - 1 } = some { b with after := b.after - (done + 1) }
        rw [Nat.sub_sub]
      · rintro _ ⟨⟩
        omega

/-- One more operation, which changes nothing but the octets of the temporary file. -/
theorem Midway.ends_attempt {onFault : OsFault → OsError} {broken : Nat → Disk → Disk}
    {operation : Disk → Except OsFault (Unit × Disk)} {new : List UInt8} {d : Disk} {done : Nat}
    (hmid : Midway ready h slot bytes done) (hdone : done < fileOperations)
    (hoperation : operation h.disk = .ok ((), d))
    (hchange : h.disk.Agrees d [slot] ∧ d.get? slot = some (.file new))
    (hbroken : ∀ torn, h.disk.Agrees (broken torn h.disk) [slot] ∧
      ∃ bytes, (broken torn h.disk).get? slot = some (.file bytes)) :
    Ends (attempt onFault broken operation) h
      (fun _ h' => Midway ready h' slot new (done + 1)) (fun _ h' => Spoilt ready h' slot) := by
  obtain ⟨hdue, hgo⟩ := hmid.breakdown_cases
  have hagrees : ∀ d, h.disk.Agrees d [slot] → ready.disk.Agrees d [slot] := fun d hd =>
    (hmid.agrees.trans hd).of_subset (by simp)
  refine ScriptedHost.ends_attempt (fun b hb hafter => ?_) fun hmore => ?_
  · obtain ⟨hrest, bytes, hfile⟩ := hbroken b.torn
    obtain ⟨b, hb, rfl⟩ := hdue b hb hafter
    exact ⟨⟨hmid.free, hagrees _ hrest, bytes, hfile⟩, rfl, b, hb, hdone⟩
  · obtain ⟨hlater, hgoing⟩ := hgo hmore
    refine ends_perform (fun _ _ hok => ?_) fun f hfault => ?_
    · rw [hoperation] at hok
      cases hok
      exact ⟨hmid.free, hagrees d hchange.1, hchange.2, hlater, hgoing⟩
    · rw [hoperation] at hfault
      cases hfault

/-- Flushing, synchronising and closing. -/
theorem Midway.ends_noChange {onFault : OsFault → OsError} {done : Nat}
    (hmid : Midway ready h slot bytes done) (hdone : done < fileOperations) :
    Ends (attempt onFault untouched noChange) h
      (fun _ h' => Midway ready h' slot bytes (done + 1)) (fun _ h' => Spoilt ready h' slot) :=
  hmid.ends_attempt hdone rfl ⟨.refl _ _, hmid.file⟩ fun _ => ⟨.refl _ _, bytes, hmid.file⟩

theorem ends_createTemporary (hready : ready.disk.LeadsTo p dir) (hname : IsFilename name) :
    Ends (createTemporary (p.child name)) ready
      (fun temporary h => temporary = p.child (ready.disk.temporaryName name) ∧
        Midway ready h (dir ++ [ready.disk.temporaryName name]) [] 1)
      (fun _ h => ready.disk.Agrees h.disk [] ∧ ready.BreaksDown) := by
  show Ends (attempt (.ofPath (p.child name)) untouched (·.createTemporary (p.child name))) ready _ _
  refine ends_attempt (fun b hb hafter => ?_) fun hmore => ?_
  · have hnow : b.after < fileOperations := by
      rw [hafter]
      decide
    exact ⟨Disk.Agrees.refl ready.disk [], b, hb, hnow⟩
  · have hcreated := Disk.createTemporary_eq hready hname
    refine ends_perform (fun _ _ hok => ?_) fun f hfault => ?_
    · rw [hcreated] at hok
      cases hok
      exact ⟨rfl, Disk.get?_temporaryName _ _ _, Disk.agrees_set _ _ _,
        Disk.get?_set_self _ (by simp), rfl, fun b hb => Nat.pos_of_ne_zero (hmore b hb)⟩
    · rw [hcreated] at hfault
      cases hfault

/-- A temporary file is filled, or an operation breaks down. -/
theorem ends_fill (hready : ready.disk.LeadsTo p dir) (htemporary : temporary ≠ "..")
    (hmid : Midway ready h (dir ++ [temporary]) [] 1) (bytes : List UInt8) :
    Ends (fill (p.child temporary) bytes) h
      (fun _ h' => Midway ready h' (dir ++ [temporary]) bytes 5)
      (fun _ h' => Spoilt ready h' (dir ++ [temporary])) := by
  have hne : dir ++ [temporary] ≠ [] := by simp
  have hwrite : ∀ content, h.disk.writeTemporary (p.child temporary) content =
      .ok (h.disk.set (dir ++ [temporary]) (.file content)) := by
    intro content
    rw [Disk.writeTemporary, (hmid.leftover.leadsTo hready).find_file htemporary hmid.file]
  have hwritten : Ends (writeTemporary (p.child temporary) bytes) h
      (fun _ h' => Midway ready h' (dir ++ [temporary]) bytes 2)
      (fun _ h' => Spoilt ready h' (dir ++ [temporary])) := by
    refine hmid.ends_attempt (by decide) (congrArg ScriptedHost.withoutValue (hwrite bytes))
      ⟨Disk.agrees_set _ _ _, Disk.get?_set_self _ hne⟩ fun torn => ?_
    rw [tornWrite, hwrite]
    exact ⟨Disk.agrees_set _ _ _, _, Disk.get?_set_self _ hne⟩
  refine hwritten.andThen fun _ _ hmid => ?_
  refine Ends.andThen (hmid.ends_noChange (by decide)) fun _ _ hmid => ?_
  refine Ends.andThen (hmid.ends_noChange (by decide)) fun _ _ hmid => ?_
  exact hmid.ends_noChange (by decide)

/-- Without its temporary file a disk is what it was. -/
theorem ends_discard (hready : ready.disk.LeadsTo p dir) (htemporary : temporary ≠ "..")
    (hleft : ready.disk.Leftover h.disk (dir ++ [temporary])) (e : OsError) :
    Ends (FileStore.discard (p.child temporary) e) h (fun _ _ => False)
      (fun _ h' => ready.disk.Agrees h'.disk []) := by
  obtain ⟨bytes, hfile⟩ := hleft.file
  have hstep : (FileStore.discard (p.child temporary) e : StateM ScriptedHost _).run h =
      (.error e, { h with disk := h.disk.discard (p.child temporary) }) := rfl
  rw [ends_error_iff hstep]
  show ready.disk.Agrees (h.disk.discard (p.child temporary)) []
  rw [Disk.discard, (hleft.leadsTo hready).find_file htemporary hfile]
  have hall : ready.disk.Agrees (h.disk.erase (dir ++ [temporary])) ([dir ++ [temporary]] ++ []) :=
    (hleft.agrees.trans (Disk.agrees_erase _ _)).of_subset (by simp)
  refine hall.of_restored ?_
  rw [List.forall_mem_singleton, hleft.free]
  exact Disk.get?_erase_self (by simp)

theorem ends_closeAndDiscard (hready : ready.disk.LeadsTo p dir) (htemporary : temporary ≠ "..")
    (hspoilt : Spoilt ready h (dir ++ [temporary])) (e : OsError) :
    Ends (closeAndDiscard (p.child temporary) e) h (fun _ _ => False)
      (fun _ h' => ready.disk.Agrees h'.disk [] ∧ ready.BreaksDown) := by
  have hclosed : Ends (closeTemporary (p.child temporary)) h
      (fun _ h' => Spoilt ready h' (dir ++ [temporary])) (fun _ _ => False) := by
    refine ends_attempt (fun b hb _ => ?_) fun _ => ends_perform (fun _ _ hok => ?_) nofun
    · rw [hspoilt.quiet] at hb
      cases hb
    · cases hok
      refine ⟨hspoilt.leftover, ?_, hspoilt.due⟩
      show h.breakdown.map Breakdown.later = none
      rw [hspoilt.quiet, Option.map_none]
  refine Ends.andThen (hclosed.imp (fun _ _ => id) fun _ _ => False.elim) fun _ h' hspoilt => ?_
  exact (ends_discard hready htemporary hspoilt.leftover e).imp (fun _ _ => id)
    fun _ _ hagrees => ⟨hagrees, hspoilt.due⟩

/-! ## Files -/

/-- A place holds a new file, and nothing else has changed. -/
structure Placed (ready h : ScriptedHost) (place : List String) (bytes : List UInt8) : Prop where
  free : ready.disk.get? place ≠ some .directory
  agrees : ready.disk.Agrees h.disk [place]
  file : h.disk.get? place = some (.file bytes)
  breakdown : h.breakdown = ready.breakdown.map (·.laterBy fileOperations)
  going : ∀ b ∈ ready.breakdown, fileOperations ≤ b.after

/-- A file cannot be written: an operation breaks down or its place is that of a directory. -/
def Obstructed (ready : ScriptedHost) (place : List String) : Prop :=
  ready.BreaksDown ∨ ready.disk.get? place = some .directory

theorem ends_replaceFile (hready : ready.disk.LeadsTo p dir) (htemporary : temporary ≠ "..")
    (hname : name ≠ "..") (hother : temporary ≠ name)
    (hmid : Midway ready h (dir ++ [temporary]) bytes 5) :
    Ends (replaceFile (p.child temporary) (p.child name)) h
      (fun _ h' => Placed ready h' (dir ++ [name]) bytes)
      (fun _ h' => ready.disk.Leftover h'.disk (dir ++ [temporary]) ∧
        Obstructed ready (dir ++ [name])) := by
  have happart : dir ++ [temporary] ≠ dir ++ [name] := fun heq =>
    hother (List.singleton_injective (List.append_cancel_left heq))
  have hsame : h.disk.get? (dir ++ [name]) = ready.disk.get? (dir ++ [name]) :=
    hmid.agrees.nodes _ (mt List.mem_singleton.mp happart.symm)
  have hreplaced := Disk.replace_eq (hmid.leftover.leadsTo hready) htemporary hname hmid.file
  rw [hsame] at hreplaced
  obtain ⟨hdue, hgo⟩ := hmid.breakdown_cases
  refine ends_attempt (fun b hb hafter => ?_) fun hmore => ends_perform (fun _ d hok => ?_) ?_
  · obtain ⟨b, hb, hafter⟩ := hdue b hb hafter
    exact ⟨hmid.leftover, Or.inl ⟨b, hb, by rw [hafter]; decide⟩⟩
  · obtain ⟨made, hmade, hpair⟩ := map_eq_ok_iff.mp hok
    cases hpair
    rw [hreplaced] at hmade
    split at hmade
    · cases hmade
    · next hfree =>
      cases hmade
      obtain ⟨hlater, hgoing⟩ := hgo hmore
      refine ⟨hfree, ?_, Disk.get?_set_self _ (by simp), hlater, hgoing⟩
      have hall : ready.disk.Agrees ((h.disk.erase (dir ++ [temporary])).set (dir ++ [name])
          (.file bytes)) ([dir ++ [temporary]] ++ [dir ++ [name]]) :=
        (hmid.agrees.trans ((Disk.agrees_erase _ _).trans (Disk.agrees_set _ _ _))).of_subset
          (by simp)
      refine hall.of_restored (List.forall_mem_singleton.mpr ?_)
      rw [hmid.free, Disk.get?_set_of_ne _ happart]
      exact Disk.get?_erase_self (by simp)
  · intro f hfault
    refine ⟨hmid.leftover, Or.inr ?_⟩
    by_contra hfree
    rw [hreplaced, if_neg hfree] at hfault
    cases hfault

/-- The step: a file is in its directory and nothing else has changed but directories that were
made, or the file could not be written and nothing else has changed at all. -/
theorem ends_atomicWrite (h : ScriptedHost) (p : DiskPath) (hname : IsFilename name)
    (bytes : List UInt8) :
    Ends (atomicWrite (p.child name) bytes) h
      (fun _ h' => ∃ ready dir, MadeDirectories h ready ∧ ready.disk.LeadsTo p dir ∧
        Placed ready h' (dir ++ [name]) bytes)
      (fun _ h' => ∃ ready, MadeDirectories h ready ∧ ready.disk.Agrees h'.disk [] ∧
        ∀ dir, ready.disk.LeadsTo p dir → Obstructed ready (dir ++ [name])) := by
  unfold atomicWrite
  rw [DiskPath.parent_child]
  refine Ends.andThen ((ends_makeDirectories h p).imp (fun _ _ => id) ?_) ?_
  · rintro _ ready ⟨hmade, hnot⟩
    exact ⟨ready, hmade, .refl _ _, fun dir hdir => absurd ⟨dir, hdir⟩ hnot⟩
  rintro _ ready ⟨hmade, dir, hready⟩
  have hobstructed : ∀ {h' : ScriptedHost}, ready.disk.Agrees h'.disk [] →
      Obstructed ready (dir ++ [name]) → ∃ ready, MadeDirectories h ready ∧
        ready.disk.Agrees h'.disk [] ∧
        ∀ dir, ready.disk.LeadsTo p dir → Obstructed ready (dir ++ [name]) := by
    intro h' hagrees hobstructed
    refine ⟨ready, hmade, hagrees, fun other hother => ?_⟩
    rw [hready.unique hother]
    exact hobstructed
  refine Ends.andThen ((ends_createTemporary hready hname).imp (fun _ _ => id) ?_) ?_
  · exact fun _ h' hend => hobstructed hend.1 (Or.inl hend.2)
  rintro _ created ⟨rfl, hmid⟩
  have htemporary := (Disk.isFilename_temporaryName ready.disk hname).notUp
  refine Ends.andThen ((Ends.rescue (ends_fill hready htemporary hmid bytes) fun e _ hspoilt =>
    (ends_closeAndDiscard hready htemporary hspoilt e).imp (fun _ _ => False.elim)
      fun _ _ => id).imp (fun _ _ => id) ?_) ?_
  · exact fun _ h' hend => hobstructed hend.1 (Or.inl hend.2)
  intro _ filled hmid
  refine Ends.rescue ((ends_replaceFile hready htemporary hname.notUp
    (Disk.temporaryName_ne _ _) hmid).imp ?_ fun _ _ => id) ?_
  · exact fun _ h' hplaced => ⟨ready, dir, hmade, hready, hplaced⟩
  · rintro e left ⟨hleft, hplace⟩
    exact (ends_discard hready htemporary hleft e).imp (fun _ _ => False.elim)
      fun _ h' hagrees => hobstructed hagrees hplace

/-! ## Several files -/

/-- Files below a path have been written, and the files at all other places are what they were. -/
structure Disk.Written (d d' : Disk) (p : DiskPath) (files : List (String × List UInt8)) :
    Prop where
  keeps : d.Keeps d'
  new : ∀ f ∈ files, d'.read (p.child f.1) = .ok f.2
  old : ∀ place, (∀ dir, d'.LeadsTo p dir → place ∉ files.map fun f => dir ++ [f.1]) →
    d'.file? place = d.file? place

theorem Disk.Grows.written {d ready d' : Disk} (hgrows : d.Grows ready)
    (hagrees : ready.Agrees d' []) (p : DiskPath) : d.Written d' p [] where
  keeps := hgrows.keeps.trans hagrees.keeps_of_nil
  new := List.forall_mem_nil _
  old place _ := (hagrees.file?_eq List.not_mem_nil).trans (hgrows.file?_eq place)

theorem Placed.keeps {place : List String} (hplaced : Placed ready h place bytes) :
    ready.disk.Keeps h.disk :=
  hplaced.agrees.keeps (List.forall_mem_singleton.mpr hplaced.free)

/-- One file more, whose name none of the others has. -/
theorem Disk.Written.cons {first last : ScriptedHost} {f : String × List UInt8}
    {files : List (String × List UInt8)} (hname : f.1 ≠ "..") (hnew : f.1 ∉ files.map (·.1))
    (hmade : MadeDirectories h ready) (hready : ready.disk.LeadsTo p dir)
    (hplaced : Placed ready first (dir ++ [f.1]) f.2)
    (hwritten : first.disk.Written last.disk p files) :
    h.disk.Written last.disk p (f :: files) := by
  have hdir : last.disk.LeadsTo p dir := (hready.keeps hplaced.keeps).keeps hwritten.keeps
  refine ⟨(hmade.grows.keeps.trans hplaced.keeps).trans hwritten.keeps,
    List.forall_mem_cons.mpr ⟨?_, hwritten.new⟩, fun place hplace => ?_⟩
  · have hfile : last.disk.file? (dir ++ [f.1]) = some f.2 := by
      rw [hwritten.old]
      · rw [Disk.file?, hplaced.file]
      · intro other hother hmem
        rw [hdir.unique hother] at hmem
        obtain ⟨g, hg, heq⟩ := List.mem_map.mp hmem
        have hsame : g.1 = f.1 := List.singleton_injective (List.append_cancel_left heq)
        exact hnew (List.mem_map.mpr ⟨g, hg, hsame⟩)
    rw [Disk.read, hdir.find_file hname (Disk.get?_of_file? hfile)]
  · have hmiss := hplace dir hdir
    rw [List.map_cons, List.mem_cons, not_or] at hmiss
    rw [hwritten.old place fun other hother => ?_]
    · rw [hplaced.agrees.file?_eq (mt List.mem_singleton.mp hmiss.1), hmade.grows.file?_eq]
    · rw [hdir.unique hother]
      exact hmiss.2

/-- What keeps the next file from being written after some others: an operation of it breaks down,
it has the name of a directory, or there is no directory for it. -/
def Disk.Blocked (d : Disk) (breakdown : Option Breakdown) (p : DiskPath) (done : Nat)
    (name : String) : Prop :=
  (∃ b ∈ breakdown, b.after < fileOperations * (done + 1)) ∨
    d.isDirectory (p.child name) = true ∨ d.isDirectory p = false

theorem blocked_of_obstructed {d : Disk} (hagrees : ready.disk.Agrees d [])
    (hname : name ≠ "..") (hmade : MadeDirectories h ready)
    (hplace : ∀ dir, ready.disk.LeadsTo p dir → Obstructed ready (dir ++ [name])) :
    d.Blocked h.breakdown p 0 name := by
  by_cases hreaches : ready.Reaches p
  · obtain ⟨dir, hdir⟩ := hreaches
    rcases hplace dir hdir with ⟨b, hb, hafter⟩ | hdirectory
    · rw [hmade.breakdown] at hb
      exact Or.inl ⟨b, hb, hafter⟩
    · refine Or.inr (Or.inl (Disk.isDirectory_iff.mpr ⟨dir ++ [name], ?_⟩))
      rw [Disk.LeadsTo, (hdir.keeps hagrees.keeps_of_nil).find_child hname,
        hagrees.keeps_of_nil.directories _ hdirectory]
  · refine Or.inr (Or.inr (Bool.eq_false_iff.mpr fun hdirectory => hreaches ?_))
    obtain ⟨dir, hdir⟩ := Disk.isDirectory_iff.mp hdirectory
    exact ⟨dir, hdir.keeps hagrees.symm.keeps_of_nil⟩

theorem Placed.breakdown_cases {place : List String} (hplaced : Placed ready h place bytes)
    (count : Nat) :
    ((∀ b ∈ h.breakdown, fileOperations * count ≤ b.after) ↔
        ∀ b ∈ ready.breakdown, fileOperations * (count + 1) ≤ b.after) ∧
      ((∃ b ∈ h.breakdown, b.after < fileOperations * count) ↔
        ∃ b ∈ ready.breakdown, b.after < fileOperations * (count + 1)) := by
  have hgoing := hplaced.going
  rw [hplaced.breakdown]
  generalize ready.breakdown = pending at hgoing ⊢
  cases pending with
  | none => simp
  | some b =>
    have hle : fileOperations ≤ b.after := hgoing b rfl
    have hlater : (b.laterBy fileOperations).after = b.after - fileOperations := rfl
    simp only [Option.map_some, Option.mem_def, Option.some.injEq, forall_eq', exists_eq_left',
      hlater, Nat.mul_succ]
    omega

/-- The run: the files up to the first that cannot be written are new, and everything else is as it
was. -/
theorem ends_writeAll (p : DiskPath) {files : List (String × List UInt8)}
    (hnames : (files.map (·.1)).Nodup) (hfiles : ∀ f ∈ files, IsFilename f.1) (h : ScriptedHost) :
    Ends (writeAll (files.map fun f => (p.child f.1, f.2))) h
      (fun _ h' => h.disk.Written h'.disk p files ∧
        ∀ b ∈ h.breakdown, fileOperations * files.length ≤ b.after)
      (fun _ h' => ∃ done failed later, files = done ++ failed :: later ∧
        h.disk.Written h'.disk p done ∧
        (∀ b ∈ h.breakdown, fileOperations * done.length ≤ b.after) ∧
        h'.disk.Blocked h.breakdown p done.length failed.1) := by
  induction files generalizing h with
  | nil =>
    exact (ends_ok_iff rfl).mpr
      ⟨(Disk.Grows.refl _).written (.refl _ _) p, fun b _ => Nat.zero_le _⟩
  | cons f rest ih =>
    rw [List.map_cons, List.nodup_cons] at hnames
    obtain ⟨hfile, hrest⟩ := List.forall_mem_cons.mp hfiles
    refine Ends.andThen ((ends_atomicWrite h p hfile f.2).imp (fun _ _ => id) ?_) ?_
    · rintro _ h' ⟨ready, hmade, hagrees, hplace⟩
      exact ⟨[], f, rest, rfl, hmade.grows.written hagrees p, fun b _ => Nat.zero_le _,
        blocked_of_obstructed hagrees hfile.notUp hmade hplace⟩
    · rintro _ first ⟨ready, dir, hmade, hready, hplaced⟩
      have hbreakdown := fun count => hmade.breakdown ▸ hplaced.breakdown_cases count
      refine (ih hnames.2 hrest first).imp ?_ ?_
      · rintro _ last ⟨hwritten, hgoing⟩
        exact ⟨hwritten.cons hfile.notUp hnames.1 hmade hready hplaced,
          (hbreakdown rest.length).1.mp hgoing⟩
      · rintro _ last ⟨done, failed, later, rfl, hwritten, hgoing, hblocked⟩
        have hnew : f.1 ∉ done.map (·.1) := fun hmem => hnames.1 (by simp [hmem])
        refine ⟨f :: done, failed, later, rfl,
          hwritten.cons hfile.notUp hnew hmade hready hplaced, (hbreakdown done.length).1.mp hgoing,
          hblocked.imp_left (hbreakdown (done.length + 1)).2.mp⟩

end

end EndpointDsl
