import EndpointDsl.CommandLine.Run
import EndpointDsl.Proofs.Compilation
import EndpointDsl.Proofs.Files.Writing
import EndpointDsl.Proofs.Name.Spelling

/-!
The files of a package.

The modules of a source have different names, and none is the name of the package's own module, so
no file takes the place of another.  Whether a module is public can be told from its name, and the
package exports those that are.
-/

namespace EndpointDsl

/-! ## Names of files -/

/-- A word with an ending is the name of a file. -/
theorem isFilename_of_wordChars {name : String} (h : Name.WordChars name) : IsFilename (name ++ ".py") := by
  have hlast : (name ++ ".py").toList.getLast? = some 'y' := by
    rw [String.toList_append, List.getLast?_append]
    rfl
  refine ⟨?_, ?_, ?_, ?_⟩
  · rw [String.toList_append, List.mem_append]
    rintro (hmem | hmem)
    · exact absurd (h _ hmem) (by decide)
    · exact absurd hmem (by decide)
  all_goals
    intro heq
    rw [heq] at hlast
    cases hlast

/-! ## Writing the files of a package -/

namespace Client

variable {settings : Settings}

theorem disk_report (console : Console) (e : Event) (h : ScriptedHost) :
    ((CommandLine.report console e : StateM ScriptedHost Unit).run h).2.disk = h.disk := by
  unfold CommandLine.report
  split <;> rfl

theorem writePackage_eq_andThen {m : Type → Type} [Monad m] [FileStore m] [LawfulMonad m]
    (report : Event → m Unit) (files : List SourceFile) :
    writePackage report settings files =
      FileStore.andThen (FileStore.writeAll
        (files.map fun f => (f.place settings, Text.utf8 f.text))) fun () => do
          report (.written files.length (DiskPath.ofText settings.outputDir).text)
          return .ok (files.map (·.place settings)) := by
  refine bind_congr fun result => ?_
  cases result <;> rfl

/-- The names of files in the output directory and what they are to hold. -/
def contents (files : List SourceFile) : List (String × List UInt8) :=
  files.map fun f => (f.filename, Text.utf8 f.text)

theorem place_eq_child {f : SourceFile} (h : IsFilename f.filename) :
    f.place settings = (DiskPath.ofText settings.outputDir).child f.filename :=
  h.join _

/-- The files of a package up to the first that cannot be written are new, and the places are
returned if there is none. -/
theorem ends_writePackage (console : Console) {files : List SourceFile}
    (hnames : (files.map (·.filename)).Nodup) (hfiles : ∀ f ∈ files, IsFilename f.filename)
    (h : ScriptedHost) :
    Ends (writePackage (CommandLine.report console) settings files) h
      (fun places h' => places = files.map (·.place settings) ∧
        h.disk.Written h'.disk (DiskPath.ofText settings.outputDir) (contents files) ∧
        ∀ b ∈ h.breakdown, fileOperations * files.length ≤ b.after)
      (fun _ h' => ∃ done failed later, files = done ++ failed :: later ∧
        h.disk.Written h'.disk (DiskPath.ofText settings.outputDir) (contents done) ∧
        (∀ b ∈ h.breakdown, fileOperations * done.length ≤ b.after) ∧
        h'.disk.Blocked h.breakdown (DiskPath.ofText settings.outputDir) done.length
          failed.filename) := by
  generalize hout : DiskPath.ofText settings.outputDir = out
  have htargets : (files.map fun f => (f.place settings, Text.utf8 f.text)) =
      (contents files).map fun f => (out.child f.1, f.2) := by
    rw [contents, List.map_map]
    exact List.map_congr_left fun f hf => by rw [place_eq_child (hfiles f hf), hout]; rfl
  have hcontents : ((contents files).map (·.1)).Nodup := by
    rw [contents, List.map_map]
    exact hnames
  rw [writePackage_eq_andThen, htargets]
  refine Ends.andThen ((ends_writeAll out hcontents (List.forall_mem_map.mpr hfiles) h).imp
    (fun _ _ => id) ?_) ?_
  · rintro _ h' ⟨done, failed, later, hsplit, hwritten, hgoing, hblocked⟩
    obtain ⟨first, rest, hfirst, hdone, hrest⟩ := List.map_eq_append_iff.mp hsplit
    obtain ⟨f, others, rfl, hf, hothers⟩ := List.map_eq_cons_iff.mp hrest
    subst hdone hf
    rw [List.length_map] at hgoing hblocked
    exact ⟨first, f, others, hfirst, hwritten, hgoing, hblocked⟩
  · rintro _ h' ⟨hwritten, hgoing⟩
    rw [contents, List.length_map] at hgoing
    rw [← disk_report console (.written files.length out.text) h', ← hout] at hwritten
    refine ends_bind_ok_iff.mpr ⟨rfl, ?_, hgoing⟩
    rwa [hout] at hwritten ⊢

/-- Files that were written stand where they are said to, each with its own text. -/
theorem run_writePackage_eq_ok {console : Console} {files : List SourceFile} {h h' : ScriptedHost}
    {places : List DiskPath} (hnames : (files.map (·.filename)).Nodup)
    (hfiles : ∀ f ∈ files, IsFilename f.filename)
    (hrun : (writePackage (CommandLine.report console) settings files :
      StateM ScriptedHost _).run h = (.ok places, h')) :
    places.Nodup ∧ List.Forall₂
      (fun f place => place = f.place settings ∧ h'.disk.read place = .ok (Text.utf8 f.text))
      files places := by
  obtain ⟨rfl, hwritten, -⟩ :=
    (ends_ok_iff hrun).mp (ends_writePackage console hnames hfiles h)
  constructor
  · rw [List.map_congr_left fun f hf => place_eq_child (hfiles f hf)]
    have hchildren := hnames.map (DiskPath.child_injective (DiskPath.ofText settings.outputDir))
    rwa [List.map_map] at hchildren
  · rw [List.forall₂_map_right_iff, List.forall₂_same]
    intro f hf
    refine ⟨rfl, ?_⟩
    rw [place_eq_child (hfiles f hf)]
    exact hwritten.new _ (List.mem_map_of_mem hf)

/-! ## The names that a package exports -/

/-- The names on the lines between the brackets of an export list: each is indented, quoted and
followed by a comma. -/
def exportedNames (text : String) : List String :=
  (((text.toList.splitOn '\n').dropWhile (· != "__all__ = [".toList)).tail.takeWhile
    (· != "]".toList)).map fun line => String.ofList (line.drop 5).dropLast.dropLast

theorem splitOn_block {lines : List String} (h : ∀ line ∈ lines, '\n' ∉ line.toList) :
    (Layout.block lines).toList.splitOn '\n' = lines.map String.toList ++ [[]] := by
  induction lines with
  | nil => rfl
  | cons line rest ih =>
    obtain ⟨hline, hrest⟩ := List.forall_mem_cons.mp h
    have hblock : (Layout.block (line :: rest)).toList =
        line.toList ++ '\n' :: (Layout.block rest).toList := by
      simp [Layout.block]
    rw [hblock, List.splitOn, List.splitOnP_append_cons_of_forall_mem, ← List.splitOn, ih hrest]
    · rfl
    · intro c hc
      refine beq_false_of_ne ?_
      rintro rfl
      exact hline hc
    · rfl

theorem asciiEscape_of_isIdentRest {c : Char} (h : isIdentRest c = true) :
    Text.asciiEscape c = [c] := by
  have hvisible : 0x20 ≤ c.toNat ∧ c.toNat ≤ 0x7e := by
    simp only [isIdentRest, Char.isAlphanum, Char.isAlpha, Char.isUpper, Char.isLower,
      Char.isDigit, Bool.or_eq_true, Bool.and_eq_true, decide_eq_true_eq, ge_iff_le, beq_iff_eq,
      UInt32.le_iff_toNat_le] at h
    rcases h with (((⟨hlow, hhigh⟩ | ⟨hlow, hhigh⟩) | ⟨hlow, hhigh⟩) | rfl)
    · exact ⟨le_trans (by decide) hlow, le_trans hhigh (by decide)⟩
    · exact ⟨le_trans (by decide) hlow, le_trans hhigh (by decide)⟩
    · exact ⟨le_trans (by decide) hlow, le_trans hhigh (by decide)⟩
    · decide
  have hshort : Text.shortEscape? c = none := by
    unfold Text.shortEscape?
    split
    · next heq => subst heq; cases h
    split
    · next heq => subst heq; cases h
    split
    · next heq => subst heq; cases h
    split
    · next heq => subst heq; cases h
    split
    · next heq => subst heq; cases h
    split
    · omega
    split
    · omega
    · rfl
  rw [Text.asciiEscape, hshort]
  exact if_pos hvisible

/-- A word is quoted as it stands. -/
theorem toList_stringLiteral {name : String} (h : Name.WordChars name) :
    (Layout.stringLiteral name).toList = '"' :: name.toList ++ ['"'] := by
  have hchars : name.toList.flatMap Text.asciiEscape = name.toList := by
    rw [List.flatMap_congr fun c hc => asciiEscape_of_isIdentRest (h c hc), List.flatMap_singleton']
  rw [Layout.stringLiteral, Text.asciiLiteral, String.toList_ofList, hchars]

/-- The lines of a package before its export list. -/
def packageHead (names : List String) : List String :=
  ["\"\"\"Endpoint modules generated by restify.\"\"\"", "# Generated by restify. Do not edit."] ++
    Layout.section_ (names.map ("from . import " ++ ·)) ++ [""]

def exportLine (name : String) : String := "    " ++ Layout.stringLiteral name ++ ","

theorem packageText_eq (names : List String) :
    Layout.packageText names = Layout.block (packageHead names ++
      "__all__ = [" :: ((names.filter Layout.isPublicName).map exportLine ++ ["]"])) := by
  simp only [Layout.packageText, packageHead, List.append_assoc]
  rfl

section

variable {name : String} {names : List String}

theorem newline_not_mem_of_wordChars (h : Name.WordChars name) : '\n' ∉ name.toList :=
  fun hmem => absurd (h _ hmem) (by decide)

theorem toList_exportLine (h : Name.WordChars name) :
    (exportLine name).toList = "    \"".toList ++ (name.toList ++ "\",".toList) := by
  rw [exportLine, String.toList_append, String.toList_append, toList_stringLiteral h]
  simp

theorem mem_packageHead (h : ∀ name ∈ names, Name.WordChars name) {line : String}
    (hline : line ∈ packageHead names) : '\n' ∉ line.toList ∧ line ≠ "__all__ = [" := by
  have himport : line ∈ names.map ("from . import " ++ ·) →
      '\n' ∉ line.toList ∧ line ≠ "__all__ = [" := by
    intro hmem
    obtain ⟨name, hname, rfl⟩ := List.mem_map.mp hmem
    constructor
    · rw [String.toList_append, List.mem_append, not_or]
      exact ⟨by decide, newline_not_mem_of_wordChars (h name hname)⟩
    · intro heq
      have hchars := congrArg (fun s : String => s.toList.head?) heq
      simp only [String.toList_append] at hchars
      cases hchars
  simp only [packageHead, List.mem_append, List.mem_cons, List.not_mem_nil, or_false] at hline
  rcases hline with ((rfl | rfl) | hsection) | rfl
  · decide
  · decide
  · unfold Layout.section_ at hsection
    split at hsection
    · cases hsection
    · rcases List.mem_cons.mp hsection with rfl | hmem
      · decide
      · exact himport hmem
  · decide

/-- A line with an exported name ends neither itself nor the list that it stands in. -/
theorem exportLine_listed (h : Name.WordChars name) :
    '\n' ∉ (exportLine name).toList ∧ ((exportLine name).toList != "]".toList) = true := by
  rw [toList_exportLine h]
  refine ⟨?_, bne_iff_ne.mpr nofun⟩
  rw [List.mem_append, List.mem_append, not_or, not_or]
  exact ⟨by decide, newline_not_mem_of_wordChars h, by decide⟩

/-- The name is what stands between the quotes. -/
theorem unquoted_exportLine (h : Name.WordChars name) :
    String.ofList (((exportLine name).toList.drop 5).dropLast.dropLast) = name := by
  rw [toList_exportLine h]
  simp

/-- A package exports the names that are public by their spelling. -/
theorem exportedNames_packageText (h : ∀ name ∈ names, Name.WordChars name) :
    exportedNames (Layout.packageText names) = names.filter Layout.isPublicName := by
  rw [packageText_eq]
  generalize hpublic : names.filter Layout.isPublicName = exported
  have hword : ∀ name ∈ exported, Name.WordChars name := by
    rw [← hpublic]
    exact fun name hname => h name (List.mem_of_mem_filter hname)
  have hlisted : ∀ line ∈ exported.map exportLine,
      '\n' ∉ line.toList ∧ (line.toList != "]".toList) = true :=
    List.forall_mem_map.mpr fun name hname => exportLine_listed (hword name hname)
  have hlines : ∀ line ∈ packageHead names ++ "__all__ = [" :: (exported.map exportLine ++ ["]"]),
      '\n' ∉ line.toList := by
    simp only [List.mem_append, List.mem_cons, List.not_mem_nil, or_false]
    rintro line (hline | rfl | hline | rfl)
    · exact (mem_packageHead h hline).1
    · decide
    · exact (hlisted line hline).1
    · decide
  have hbefore : ∀ cs ∈ (packageHead names).map String.toList,
      (cs != "__all__ = [".toList) = true := by
    refine List.forall_mem_map.mpr fun line hline => bne_iff_ne.mpr fun heq => ?_
    exact (mem_packageHead h hline).2 (String.toList_inj.mp heq)
  have hopens : ∀ cs ∈ ("__all__ = [".toList ::
      ((exported.map exportLine).map String.toList ++ ["]".toList, []])).head?,
      (cs != "__all__ = [".toList) = false := by
    rintro _ ⟨⟩
    rfl
  have hinside : ∀ cs ∈ (exported.map exportLine).map String.toList, (cs != "]".toList) = true :=
    List.forall_mem_map.mpr fun line hline => (hlisted line hline).2
  have hcloses : ∀ cs ∈ ["]".toList, []].head?, (cs != "]".toList) = false := by
    rintro _ ⟨⟩
    rfl
  have hdrop := (span_append hbefore hopens).2
  have htake := (span_append hinside hcloses).1
  rw [exportedNames, splitOn_block hlines]
  simp only [List.map_append, List.map_cons, List.append_assoc, List.cons_append, List.map_nil,
    List.nil_append]
  rw [hdrop, List.tail_cons, htake, List.map_map, List.map_map]
  refine (List.map_congr_left fun name hname => ?_).trans (List.map_id exported)
  exact unquoted_exportLine (hword name hname)

end

/-! ## The package of a source -/

theorem name_of_ofEndpoint {unit : String} {e : Schema.Endpoint} {module : Module}
    (h : ofEndpoint unit (Schema.resolveEndpoint e) = .ok module) : module.name = e.moduleName := by
  obtain ⟨parts, -, h⟩ := bind_eq_ok_iff.mp h
  cases h
  rfl

/-- No module is named like the module of the package itself. -/
theorem moduleName_ne_init (endpoint : String) (isPublic : Bool) :
    Name.moduleName endpoint isPublic ≠ "__init__" := by
  obtain ⟨-, -, c, rest, hlist, halpha⟩ := Name.moduleStem_spec endpoint
  unfold Name.moduleName
  generalize Name.moduleStem endpoint = stem at hlist
  intro heq
  have hchars := congrArg String.toList heq
  split at hchars
  · rw [hlist] at hchars
    cases hchars
    cases halpha
  · rw [String.toList_append, hlist] at hchars
    cases hchars
    cases halpha

theorem append_py_inj {name other : String} (h : name ++ ".py" = other ++ ".py") :
    name = other := by
  have hchars := congrArg String.toList h
  rw [String.toList_append, String.toList_append] at hchars
  exact String.toList_inj.mp (List.append_cancel_right hchars)

theorem nodup_filenames {modules : List Module} (hnames : (modules.map (·.name)).Nodup) :
    (modules.map (·.filename)).Nodup := by
  have hfilenames : modules.map (·.filename) = (modules.map (·.name)).map (· ++ ".py") := by
    rw [List.map_map]
    rfl
  rw [hfilenames]
  exact hnames.map fun _ _ => append_py_inj

section

variable {files : List SourceFile} {init : Option String}

theorem mem_package_iff {f : SourceFile} :
    f ∈ SourceFile.package settings files (init.map (⟨SourceFile.initName, ·⟩)) ↔
      f ∈ files ∨ settings.writeInit = true ∧ ∃ text ∈ init, ⟨SourceFile.initName, text⟩ = f := by
  rw [SourceFile.package, List.mem_append]
  refine or_congr_right ?_
  split
  · next hinit => simp [hinit, Option.mem_toList]
  · next hinit => simp [hinit]

/-- The files of a package have different names, if those of its modules do. -/
theorem nodup_package_of_files (hnames : (files.map (·.filename)).Nodup)
    (hinit : SourceFile.initName ∉ files.map (·.filename)) :
    ((SourceFile.package settings files
      (init.map (⟨SourceFile.initName, ·⟩))).map (·.filename)).Nodup := by
  rw [SourceFile.package, List.map_append]
  refine List.nodup_append'.mpr ⟨hnames, ?_, ?_⟩
  · split
    · cases init <;> simp
    · exact List.nodup_nil
  · intro filename hleft hright
    have hlast : filename = SourceFile.initName := by
      split at hright
      · cases init with
        | none => cases hright
        | some text => exact List.mem_singleton.mp hright
      · cases hright
    exact hinit (hlast ▸ hleft)

theorem isFilename_of_mem_files (hfiles : ∀ f ∈ files, IsFilename f.filename) {f : SourceFile}
    (hf : f ∈ SourceFile.package settings files (init.map (⟨SourceFile.initName, ·⟩))) :
    IsFilename f.filename := by
  rcases mem_package_iff.mp hf with hf | ⟨-, text, -, rfl⟩
  · exact hfiles f hf
  · have hword : Name.WordChars "__init__" := by decide
    exact isFilename_of_wordChars hword

end

theorem nodup_package {modules : List Module} {init : Option String}
    (hnames : (modules.map (·.name)).Nodup) (hinit : ∀ m ∈ modules, m.name ≠ "__init__") :
    ((SourceFile.package settings (modules.map .ofModule)
      (init.map (⟨SourceFile.initName, ·⟩))).map (·.filename)).Nodup := by
  have hfilenames : (modules.map SourceFile.ofModule).map (·.filename) =
      modules.map (·.filename) := by
    rw [List.map_map]
    rfl
  refine nodup_package_of_files (hfilenames ▸ nodup_filenames hnames) fun hlast => ?_
  rw [hfilenames] at hlast
  obtain ⟨m, hm, heq⟩ := List.mem_map.mp hlast
  replace heq : m.name ++ ".py" = "__init__" ++ ".py" := heq
  exact hinit m hm (append_py_inj heq)

theorem isFilename_of_mem_package {modules : List Module} {init : Option String} {f : SourceFile}
    (hnames : ∀ m ∈ modules, Name.WordChars m.name)
    (hf : f ∈ SourceFile.package settings (modules.map .ofModule)
      (init.map (⟨SourceFile.initName, ·⟩))) : IsFilename f.filename :=
  isFilename_of_mem_files
    (List.forall_mem_map.mpr fun m hm => isFilename_of_wordChars (hnames m hm)) hf

end Client

open Client

/-- The modules of a source that compiles have different file names, none of which is that of the
package itself, and legal names that tell whether the endpoint is public.  So files that were
written all keep their own texts, and the package exports the modules of the public endpoints. -/
theorem package_of_compile {text unit : String} {c : Compilation} (h : compile text unit = .ok c)
    (hok : c.diagnostics = []) :
    (c.modules.map (·.filename)).Nodup ∧ SourceFile.initName ∉ c.modules.map (·.filename) ∧
      List.Forall₂ (fun e module => module.name = e.moduleName ∧ Name.IsLegal module.name ∧
        (module.name.toList.head? = some '_' ↔ e.isPublic = false))
        c.built.schema.endpoints c.modules ∧
      exportedNames (SourceFile.init c.modules).text =
        (c.built.schema.endpoints.filter (·.isPublic)).map (·.moduleName) ∧
      ∀ (settings : Settings) (console : Console) (init : Option String) (host host' : ScriptedHost)
        (files : List SourceFile) (places : List DiskPath),
        files = SourceFile.package settings (c.modules.map .ofModule)
          (init.map (⟨SourceFile.initName, ·⟩)) →
        (writePackage (CommandLine.report console) settings files : StateM ScriptedHost _).run host =
          (.ok places, host') →
        places.Nodup ∧ List.Forall₂ (fun f place => place = f.place settings ∧
          host'.disk.read place = .ok (Text.utf8 f.text)) files places := by
  obtain ⟨-, -, hschema, hmodules⟩ := modules_of_compile h hok
  have hnamed : c.modules.map (·.name) = c.built.schema.endpoints.map (·.moduleName) :=
    (map_eq_of_forall₂ hmodules fun e module hmade => (name_of_ofEndpoint hmade).symm).symm
  have hnodup : (c.modules.map (·.name)).Nodup := hnamed ▸ hschema.moduleNames
  have hmem : ∀ m ∈ c.modules, ∃ e : Schema.Endpoint, m.name = e.moduleName := by
    intro m hm
    obtain ⟨e, -, hmade⟩ := exists_of_mem_forall₂ hmodules hm
    exact ⟨e, name_of_ofEndpoint hmade⟩
  have hword : ∀ m ∈ c.modules, Name.WordChars m.name := by
    intro m hm
    obtain ⟨e, hname⟩ := hmem m hm
    rw [hname]
    exact Name.wordChars_of_isIdent (Name.isLegal_moduleName e.name e.isPublic).ident
  have hinit : ∀ m ∈ c.modules, m.name ≠ "__init__" := by
    intro m hm
    obtain ⟨e, hname⟩ := hmem m hm
    rw [hname]
    exact moduleName_ne_init e.name e.isPublic
  refine ⟨nodup_filenames hnodup, fun hlast => ?_, ?_, ?_, ?_⟩
  · obtain ⟨m, hm, heq⟩ := List.mem_map.mp hlast
    replace heq : m.name ++ ".py" = "__init__" ++ ".py" := heq
    exact hinit m hm (append_py_inj heq)
  · refine hmodules.imp fun e module hmade => ?_
    rw [name_of_ofEndpoint hmade]
    exact ⟨rfl, Name.isLegal_moduleName e.name e.isPublic, Name.head?_moduleName e.name e.isPublic⟩
  · rw [SourceFile.init, exportedNames_packageText (List.forall_mem_map.mpr hword), hnamed,
      List.filter_map]
    congr 1
    refine List.filter_congr fun e _ => ?_
    have hhead := Name.head?_moduleName e.name e.isPublic
    show (e.moduleName.toList.head? != some '_') = e.isPublic
    rw [Schema.Endpoint.moduleName]
    cases hpublic : e.isPublic with
    | true =>
      rw [hpublic] at hhead
      exact bne_iff_ne.mpr fun heq => absurd (hhead.mp heq) (by decide)
    | false =>
      rw [hpublic] at hhead
      rw [hhead.mpr rfl]
      rfl
  · rintro settings console init host host' files places rfl hrun
    exact run_writePackage_eq_ok (nodup_package hnodup hinit)
      (fun f hf => isFilename_of_mem_package hword hf) hrun

/-! ## A package of two modules -/

def hereSettings : Settings := { outputDir := "." }

def emptyHost : ScriptedHost := { disk := {} }

theorem run_writePackage_of_writeAll (console : Console) {settings : Settings}
    {files : List SourceFile} {h : ScriptedHost}
    (hwritten : ((FileStore.writeAll (files.map fun f => (f.place settings, Text.utf8 f.text)) :
      StateM ScriptedHost _).run h).1 = .ok ()) :
    ∃ h', (writePackage (CommandLine.report console) settings files : StateM ScriptedHost _).run h =
      (.ok (files.map (·.place settings)), h') := by
  rw [writePackage, StateT.run_bind]
  generalize (FileStore.writeAll (files.map fun f =>
    (f.place settings, Text.utf8 f.text)) : StateM ScriptedHost _).run h = written at hwritten
  obtain ⟨result, middle⟩ := written
  cases hwritten
  exact ⟨_, rfl⟩

theorem writeAll_emptyHost (private_ public_ package : List UInt8) :
    ((FileStore.writeAll [(⟨"", ["_a.py"]⟩, private_), (⟨"", ["b.py"]⟩, public_),
      (⟨"", ["__init__.py"]⟩, package)] : StateM ScriptedHost _).run emptyHost).1 = .ok () := by
  cbv

/-- A module that is private and one that is public are written beside the package's own. -/
theorem linked_package_written : ∃ c files places host', compile Schema.linkedText "" = .ok c ∧
    c.diagnostics = [] ∧ files = SourceFile.ofModules hereSettings c.modules ∧
    exportedNames (SourceFile.init c.modules).text = ["b"] ∧
    (writePackage (CommandLine.report {}) hereSettings files : StateM ScriptedHost _).run emptyHost =
      (.ok places, host') ∧
    places.Nodup ∧ List.Forall₂ (fun f place => place = f.place hereSettings ∧
      host'.disk.read place = .ok (Text.utf8 f.text)) files places := by
  obtain ⟨c, hc, hok, hschema⟩ := exists_linked_compilation
  obtain ⟨-, -, hnames, hexported, hwrites⟩ := package_of_compile hc hok
  rw [hschema] at hnames hexported
  obtain ⟨a, rest, ⟨ha, -⟩, hrest, hmodules⟩ := List.forall₂_cons_left_iff.mp hnames
  obtain ⟨b, rest, ⟨hb, -⟩, hnone, rfl⟩ := List.forall₂_cons_left_iff.mp hrest
  cases hnone
  have hplace : ∀ {m : Module} {name : String}, m.name = name →
      (SourceFile.ofModule m).place hereSettings =
        (DiskPath.ofText ".").join (name ++ ".py") := by
    rintro m name rfl
    rfl
  have hwritten : ((FileStore.writeAll ((SourceFile.ofModules hereSettings c.modules).map fun f =>
      (f.place hereSettings, Text.utf8 f.text)) : StateM ScriptedHost _).run emptyHost).1 =
        .ok () := by
    rw [hmodules]
    refine Eq.trans ?_ (writeAll_emptyHost (Text.utf8 (SourceFile.ofModule a).text)
      (Text.utf8 (SourceFile.ofModule b).text) (Text.utf8 (SourceFile.init [a, b]).text))
    have hfirst : Schema.linkedEndpoint.moduleName = "_a" := by decide +kernel
    have hsecond : Name.moduleName "B" true = "b" := by decide +kernel
    show ((FileStore.writeAll [((SourceFile.ofModule a).place hereSettings, _),
      ((SourceFile.ofModule b).place hereSettings, _),
      ((DiskPath.ofText ".").join "__init__.py", _)] : StateM ScriptedHost _).run emptyHost).1 = _
    rw [hplace (ha.trans hfirst), hplace (hb.trans hsecond)]
    rfl
  obtain ⟨host', hrun⟩ := run_writePackage_of_writeAll {} hwritten
  have hexports : (Schema.linkedSchema.endpoints.filter (·.isPublic)).map (·.moduleName) =
      ["b"] := by decide +kernel
  exact ⟨c, _, _, host', hc, hok, rfl, hexported.trans hexports, hrun,
    hwrites hereSettings {} (some (SourceFile.init c.modules).text) emptyHost host' _ _ rfl hrun⟩

end EndpointDsl
