import EndpointDsl.Proofs.Client.Package

/-!
What is left when the writing of a package fails.

Files are written one after the other, and each takes its place in one step.  So the files before
the one that fails are new, that one and those after it are what they were, and no temporary file
stays.
-/

namespace EndpointDsl
namespace Client

variable {settings : Settings}

/-- Some files of a package are new, and the others are what they were, like every other file. -/
structure WrittenInPart (settings : Settings) (d d' : Disk) (done others : List SourceFile) :
    Prop where
  new : ∀ f ∈ done, d'.read (f.place settings) = .ok (Text.utf8 f.text)
  same : ∀ f ∈ others, ∀ dir, d'.LeadsTo (DiskPath.ofText settings.outputDir) dir →
    d'.file? (dir ++ [f.filename]) = d.file? (dir ++ [f.filename])
  elsewhere : ∀ place, (∀ dir, d'.LeadsTo (DiskPath.ofText settings.outputDir) dir →
    place ∉ (done ++ others).map fun f => dir ++ [f.filename]) → d'.file? place = d.file? place

theorem writtenInPart_of_written {d d' : Disk} {done others : List SourceFile}
    (hnames : ((done ++ others).map (·.filename)).Nodup)
    (hfiles : ∀ f ∈ done, IsFilename f.filename)
    (hwritten : d.Written d' (DiskPath.ofText settings.outputDir) (contents done)) :
    WrittenInPart settings d d' done others := by
  have hplaces : ∀ dir : List String, (contents done).map (fun f => dir ++ [f.1]) =
      done.map fun f => dir ++ [f.filename] := by
    intro dir
    rw [contents, List.map_map]
    rfl
  refine ⟨fun f hf => ?_, fun f hf dir hdir => ?_, fun place hplace => ?_⟩
  · rw [place_eq_child (hfiles f hf)]
    exact hwritten.new _ (List.mem_map_of_mem hf)
  · refine hwritten.old _ fun other hother hmem => ?_
    rw [hdir.unique hother, hplaces] at hmem
    obtain ⟨g, hg, heq⟩ := List.mem_map.mp hmem
    have hsame : g.filename = f.filename := List.singleton_injective (List.append_cancel_left heq)
    rw [List.map_append, List.nodup_append'] at hnames
    exact hnames.2.2 (List.mem_map_of_mem hg) (hsame ▸ List.mem_map_of_mem hf)
  · refine hwritten.old _ fun dir hdir hmem => hplace dir hdir ?_
    rw [hplaces] at hmem
    rw [List.map_append]
    exact List.mem_append_left _ hmem

end Client

open Client

/-- Whatever was in the output directory and whichever operation fails, the files of a package up to
the one that could not be written are new and all other files are what they were.  One cannot be
written if one of its operations breaks down, or there is a directory of its name, or none that it
could be in; if none of this is so of any file, all of them are written. -/
theorem package_written_up_to_failure {settings : Settings} {console : Console}
    {modules files : List SourceFile} {init : Option String} {host host' : ScriptedHost}
    {result : Except OsError (List DiskPath)} (hnames : (modules.map (·.filename)).Nodup)
    (hinit : SourceFile.initName ∉ modules.map (·.filename))
    (hfiles : ∀ f ∈ modules, IsFilename f.filename)
    (hpackage : files = SourceFile.package settings modules (init.map (⟨SourceFile.initName, ·⟩)))
    (hrun : (writePackage (CommandLine.report console) settings files :
      StateM ScriptedHost _).run host = (result, host')) :
    (result = .ok (files.map (·.place settings)) ∧
      WrittenInPart settings host.disk host'.disk files [] ∧
      ∀ b ∈ host.breakdown, fileOperations * files.length ≤ b.after) ∨
    ∃ e done failed later, result = .error e ∧ files = done ++ failed :: later ∧
      WrittenInPart settings host.disk host'.disk done (failed :: later) ∧
      (∀ b ∈ host.breakdown, fileOperations * done.length ≤ b.after) ∧
      host'.disk.Blocked host.breakdown (DiskPath.ofText settings.outputDir) done.length
        failed.filename := by
  have hall : (files.map (·.filename)).Nodup := hpackage ▸ nodup_package_of_files hnames hinit
  have hplain : ∀ f ∈ files, IsFilename f.filename := fun f hf =>
    isFilename_of_mem_files hfiles (hpackage ▸ hf)
  have hends := @ends_writePackage settings console files hall hplain host
  cases result with
  | ok places =>
    obtain ⟨rfl, hwritten, hgoing⟩ := (ends_ok_iff hrun).mp hends
    refine Or.inl ⟨rfl, writtenInPart_of_written ?_ hplain hwritten, hgoing⟩
    rwa [List.append_nil]
  | error e =>
    obtain ⟨done, failed, later, rfl, hwritten, hgoing, hblocked⟩ := (ends_error_iff hrun).mp hends
    refine Or.inr ⟨e, done, failed, later, rfl, rfl, ?_, hgoing, hblocked⟩
    exact writtenInPart_of_written hall (fun f hf => hplain f (List.mem_append_left _ hf)) hwritten

/-! ## A failure at the second file -/

def firstFile : SourceFile := ⟨"a.py", "new"⟩

def secondFile : SourceFile := ⟨"b.py", "new"⟩

/-- The second file is there, and the third operation on its temporary file will fail. -/
def failingHost : ScriptedHost where
  disk := { nodes := [(["b.py"], .file (Text.utf8 "old"))] }
  breakdown := some { after := 8 }

/-- The first file is new, and the second one is the old one. -/
def partialDisk : Disk :=
  { nodes := [(["a.py"], .file (Text.utf8 "new")), (["b.py"], .file (Text.utf8 "old"))] }

theorem exists_failing_run : ∃ e host', (writePackage (CommandLine.report {}) hereSettings
    [firstFile, secondFile] : StateM ScriptedHost _).run failingHost = (.error e, host') ∧
    host'.disk = partialDisk := by
  have hfailed : ((writePackage (CommandLine.report {}) hereSettings [firstFile, secondFile] :
      StateM ScriptedHost _).run failingHost).1.isOk = false := by cbv
  have hdisk : ((writePackage (CommandLine.report {}) hereSettings [firstFile, secondFile] :
      StateM ScriptedHost _).run failingHost).2.disk = partialDisk := by cbv
  rcases hrun : (writePackage (CommandLine.report {}) hereSettings [firstFile, secondFile] :
    StateM ScriptedHost _).run failingHost with ⟨e | places, host'⟩
  · rw [hrun] at hdisk
    exact ⟨e, host', rfl, hdisk⟩
  · rw [hrun] at hfailed
    cases hfailed

/-- The file that could not be written is the second one. -/
theorem second_file_kept : ∃ e host', (writePackage (CommandLine.report {}) hereSettings
    [firstFile, secondFile] : StateM ScriptedHost _).run failingHost = (.error e, host') ∧
    host'.disk = partialDisk ∧
    WrittenInPart hereSettings failingHost.disk host'.disk [firstFile] [secondFile] := by
  obtain ⟨e, host', hrun, hdisk⟩ := exists_failing_run
  refine ⟨e, host', hrun, hdisk, ?_⟩
  have hpackage : [firstFile, secondFile] = SourceFile.package hereSettings
    [firstFile, secondFile] (none.map (⟨SourceFile.initName, ·⟩)) := rfl
  have hfiles : ∀ f ∈ [firstFile, secondFile], IsFilename f.filename := by
    refine List.forall_mem_cons.mpr ⟨?_, List.forall_mem_singleton.mpr ?_⟩
    · exact ⟨by decide, by decide, by decide, by decide⟩
    · exact ⟨by decide, by decide, by decide, by decide⟩
  rcases package_written_up_to_failure (by decide) (by decide) hfiles hpackage hrun with
    ⟨⟨⟩, -⟩ | ⟨_, done, failed, later, -, hsplit, hwritten, hgoing, hblocked⟩
  cases done with
  | nil =>
    -- Nothing kept the first file from being written.
    obtain ⟨rfl, -⟩ := List.cons.inj hsplit
    rw [hdisk] at hblocked
    rcases hblocked with ⟨b, ⟨⟩, hafter⟩ | hdirectory | hdirectory
    · exact absurd hafter (by decide)
    · exact absurd hdirectory (by decide)
    · exact absurd hdirectory (by decide)
  | cons f rest =>
    obtain ⟨rfl, hrest⟩ := List.cons.inj hsplit
    cases rest with
    | nil =>
      obtain ⟨rfl, rfl⟩ := List.cons.inj hrest
      exact hwritten
    | cons g more => cases more <;> cases hrest

end EndpointDsl
