import TinyScript.Pipeline
import TinyScript.Proofs.Files
import TinyScript.Proofs.Options

/-!
# What a run leaves behind

The file operations of a run come in their order, until one fails.  Everything that is different
afterwards is a directory that had to be made, or an artifact that is complete.

* `FileTree.perform_changed`   what operations have changed when they end or fail
* `Script.mem_written`         the files that a script writes
* `Pipeline.run_cases`         where a run can end
* `run_leaves_artifacts`       what a run changes, and what it leaves when a pass fails
* `directory_in_place_of_listing`  a run that fails where its listing would be
-/

namespace TinyScript

/-! ### Operations in their order -/

/-- the file that an operation writes, at its place -/
def Action.written? : Action → Option (List String × ByteArray)
  | .make _ => none
  | .write path content _ => some (Path.place path, content.toUTF8)

/-- what is told when the operation fails -/
def Action.Blames (trouble : Trouble) : Action → Prop
  | .make directory => ∃ e, trouble = .making directory e
  | .write _ _ blame => ∃ e, trouble = blame e

namespace FileTree

variable {made : List String → Prop} {written : List (List String × ByteArray)}
  {before files after : FileTree} {a : Action} {trouble : Trouble}

theorem act_ok (hmade : ∀ d, a = .make d → ∀ x, Path.OnWay d x → made x)
    (h : Changed made written before files) (ha : files.act a = (after, none)) :
    Changed made (a.written?.toList ++ written) before after := by
  cases a with
  | make directory =>
    have hd := h.trans ((makeDirectories_changed files directory).mono (hmade directory rfl))
    rw [act] at ha
    split at ha
    · next f heq =>
      rw [heq] at hd
      cases ha
      exact hd
    · cases ha
  | write path content blame =>
    rw [act] at ha
    split at ha
    · next f heq =>
      obtain ⟨hplace, rfl⟩ := write_ok heq
      cases ha
      exact h.write hplace content.toUTF8
    · cases ha

theorem act_failed (hmade : ∀ d, a = .make d → ∀ x, Path.OnWay d x → made x)
    (h : Changed made written before files) (ha : files.act a = (after, some trouble)) :
    Changed made written before after ∧ a.Blames trouble := by
  cases a with
  | make directory =>
    have hd := h.trans ((makeDirectories_changed files directory).mono (hmade directory rfl))
    rw [act] at ha
    split at ha
    · cases ha
    · next f e heq =>
      rw [heq] at hd
      cases ha
      exact ⟨hd, e, rfl⟩
  | write path content blame =>
    rw [act] at ha
    split at ha
    · cases ha
    · next e heq =>
      cases ha
      exact ⟨h, e, rfl⟩

/-- Some of the operations have been done, and all of them if none has failed. -/
theorem perform_changed {actions : List Action}
    (hmade : ∀ d, .make d ∈ actions → ∀ x, Path.OnWay d x → made x)
    (h : Changed made written before files) :
    ∃ done, done <+: actions ∧
      Changed made ((done.filterMap Action.written?).reverse ++ written) before
        (files.perform actions).1 ∧
      match (files.perform actions).2 with
      | none => done = actions
      | some trouble => ∃ a ∈ actions, a.Blames trouble := by
  induction actions generalizing files written with
  | nil => exact ⟨[], List.prefix_rfl, h, rfl⟩
  | cons a actions ih =>
    have hfirst (d : String) (hd : a = .make d) := hmade d (hd ▸ List.mem_cons_self)
    rw [perform]
    split
    · next f ha =>
      obtain ⟨done, hprefix, hchanged, hend⟩ :=
        ih (fun d hd => hmade d (List.mem_cons_of_mem a hd)) (act_ok hfirst h ha)
      have hreverse : ((a :: done).filterMap Action.written?).reverse =
          (done.filterMap Action.written?).reverse ++ a.written?.toList := by
        cases hw : a.written? <;> simp [hw]
      refine ⟨a :: done, List.cons_prefix_cons.mpr ⟨rfl, hprefix⟩, ?_, ?_⟩
      · rw [hreverse, List.append_assoc]
        exact hchanged
      · split at hend
        · exact congrArg (a :: ·) hend
        · obtain ⟨b, hb, hblames⟩ := hend
          exact ⟨b, List.mem_cons_of_mem a hb, hblames⟩
    · next f trouble ha =>
      obtain ⟨hchanged, hblames⟩ := act_failed hfirst h ha
      exact ⟨[], List.nil_prefix, hchanged, a, List.mem_cons_self, hblames⟩

end FileTree

/-! ### Artifacts -/

namespace Options

def treePath (options : Options) : String := Path.join options.output options.treeFormat.fileName

def assemblyPath (options : Options) : String := Path.join options.output assemblyFileName

/-- the place of the tree artifact, one step behind the output directory -/
def treePlace (options : Options) : List String :=
  Path.place options.output ++ [options.treeFormat.fileName]

def assemblyPlace (options : Options) : List String :=
  Path.place options.output ++ [assemblyFileName]

end Options

theorem isName_tree (format : TreeFormat) : Path.IsName format.fileName := by
  cases format <;> constructor <;> decide +kernel

theorem isName_assembly : Path.IsName assemblyFileName := by
  constructor <;> decide +kernel

namespace Options

variable {options : Options}

theorem place_treePath (h : options.output ≠ "") : Path.place options.treePath = options.treePlace :=
  Path.place_join h (isName_tree _)

theorem place_assemblyPath (h : options.output ≠ "") :
    Path.place options.assemblyPath = options.assemblyPlace :=
  Path.place_join h isName_assembly

theorem treePlace_ne (options : Options) : options.treePlace ≠ options.assemblyPlace := by
  intro h
  have hname := List.append_cancel_left h
  cases hformat : options.treeFormat <;> rw [hformat] at hname <;> revert hname <;> decide +kernel

end Options

/-- the trouble with files, which no other part of a run reports -/
def Trouble.OfFiles : Trouble → Prop
  | .making .. | .writingTree _ | .writingAssembly _ => True
  | .loading _ | .running .. | .generating .. => False

namespace Script

variable {options : Options} {loaded : Loaded} {place : List String} {content : ByteArray}

/-- the operations of both passes -/
def actionsOf (options : Options) (loaded : Loaded) : List Action :=
  (treeDump options loaded.program).actions ++ (assembly options loaded).actions

/-- A script ends where no code can be generated, or it consists of both passes. -/
theorem ofLoaded_cases (options : Options) (loaded : Loaded) :
    (∃ failure, (ofLoaded options loaded).actions = (treeDump options loaded.program).actions ∧
      (ofLoaded options loaded).report = .error (.generating loaded.name failure)) ∨
    (options.noCompile = false → ∃ lines, loaded.program.compile = .ok lines) ∧
      (ofLoaded options loaded).actions = actionsOf options loaded ∧
      (ofLoaded options loaded).report = .ok
        { tree := if options.noRun then none else some options.treePath
          assembly := if options.noCompile then none else some options.assemblyPath } := by
  have htree : (treeDump options loaded.program).report =
      .ok { tree := if options.noRun then none else some options.treePath } := by
    unfold treeDump
    cases options.noRun <;> rfl
  unfold ofLoaded andThen actionsOf
  simp only [htree]
  unfold assembly
  cases hcompile : options.noCompile with
  | true => exact .inr ⟨nofun, trivial, by cases options.noRun <;> rfl⟩
  | false =>
    cases hlines : loaded.program.compile with
    | error failure => exact .inl ⟨failure, List.append_nil _, rfl⟩
    | ok lines => exact .inr ⟨fun _ => ⟨lines, rfl⟩, trivial, by cases options.noRun <;> rfl⟩

theorem mem_actionsOf {a : Action} (h : a ∈ actionsOf options loaded) :
    a = .make options.output ∨
      (∃ content, a = .write options.treePath content .writingTree) ∨
      ∃ content, a = .write options.assemblyPath content .writingAssembly := by
  unfold actionsOf treeDump assembly at h
  rcases List.mem_append.mp h with h | h
  · split at h
    · cases h
    · simp only [List.mem_cons, List.not_mem_nil, or_false] at h
      rcases h with rfl | rfl
      · exact .inl rfl
      · exact .inr (.inl ⟨_, rfl⟩)
  · split at h
    · cases h
    · split at h
      · cases h
      · simp only [List.mem_cons, List.not_mem_nil, or_false] at h
        rcases h with rfl | rfl
        · exact .inl rfl
        · exact .inr (.inr ⟨_, rfl⟩)

theorem eq_output_of_make {directory : String} (h : .make directory ∈ actionsOf options loaded) :
    directory = options.output := by
  rcases mem_actionsOf h with h | ⟨_, h⟩ | ⟨_, h⟩
  · exact Action.make.inj h
  · cases h
  · cases h

theorem ofFiles_of_blames {a : Action} {trouble : Trouble} (h : a ∈ actionsOf options loaded)
    (hblames : a.Blames trouble) : trouble.OfFiles := by
  rcases mem_actionsOf h with rfl | ⟨_, rfl⟩ | ⟨_, rfl⟩
  all_goals
    obtain ⟨e, rfl⟩ := hblames
    trivial

/-- the tree artifact, if there is to be one -/
def treeFile (options : Options) (p : Program) : List (List String × ByteArray) :=
  if options.noRun then []
  else [(Path.place options.treePath, (options.treeFormat.render p).toUTF8)]

/-- the listing, if there is to be one and there is code -/
def assemblyFile (options : Options) (p : Program) : List (List String × ByteArray) :=
  if options.noCompile then []
  else p.compile.toOption.toList.map fun lines =>
    (Path.place options.assemblyPath, (Assembly.fileText lines).toUTF8)

theorem written_treeDump (options : Options) (p : Program) :
    (treeDump options p).actions.filterMap Action.written? = treeFile options p := by
  unfold treeDump treeFile
  cases options.noRun <;> rfl

theorem written_actionsOf (options : Options) (loaded : Loaded) :
    (actionsOf options loaded).filterMap Action.written? =
      treeFile options loaded.program ++ assemblyFile options loaded.program := by
  have hassembly : (assembly options loaded).actions.filterMap Action.written? =
      assemblyFile options loaded.program := by
    unfold assembly assemblyFile
    cases options.noCompile with
    | true => rfl
    | false => cases loaded.program.compile <;> rfl
  rw [actionsOf, List.filterMap_append, written_treeDump, hassembly]

theorem eq_of_mem_treeFile (hout : options.output ≠ "") {p : Program}
    {e : List String × ByteArray} (h : e ∈ treeFile options p) :
    options.noRun = false ∧ e = (options.treePlace, (options.treeFormat.render p).toUTF8) := by
  unfold treeFile at h
  split at h
  · cases h
  · next hrun =>
    rw [Options.place_treePath hout] at h
    exact ⟨Bool.eq_false_iff.mpr hrun, List.mem_singleton.mp h⟩

theorem eq_of_mem_assemblyFile (hout : options.output ≠ "") {p : Program}
    {e : List String × ByteArray} (h : e ∈ assemblyFile options p) :
    options.noCompile = false ∧ ∃ lines, p.compile = .ok lines ∧
      e = (options.assemblyPlace, (Assembly.fileText lines).toUTF8) := by
  unfold assemblyFile at h
  split at h
  · cases h
  · next hcompile =>
    rw [Options.place_assemblyPath hout] at h
    cases hlines : p.compile with
    | error failure =>
      rw [hlines] at h
      cases h
    | ok lines =>
      rw [hlines] at h
      exact ⟨Bool.eq_false_iff.mpr hcompile, lines, rfl, List.mem_singleton.mp h⟩

theorem lookup_treePlace (hout : options.output ≠ "") (hrun : options.noRun = false) (p : Program) :
    ((treeFile options p ++ assemblyFile options p).reverse).lookup options.treePlace =
      some (options.treeFormat.render p).toUTF8 := by
  have hassembly : ((assemblyFile options p).reverse).lookup options.treePlace = none := by
    rw [List.lookup_eq_none_iff]
    intro e he
    obtain ⟨-, lines, -, rfl⟩ := eq_of_mem_assemblyFile hout (List.mem_reverse.mp he)
    exact bne_iff_ne.mpr (Options.treePlace_ne options)
  have htree : treeFile options p =
      [(options.treePlace, (options.treeFormat.render p).toUTF8)] := by
    rw [treeFile, if_neg (Bool.eq_false_iff.mp hrun), Options.place_treePath hout]
  rw [List.reverse_append, List.lookup_append, hassembly, htree]
  exact List.lookup_cons_self

theorem lookup_assemblyPlace (hout : options.output ≠ "") (hcompile : options.noCompile = false)
    {p : Program} {lines : List Assembly.Line} (hlines : p.compile = .ok lines) :
    ((treeFile options p ++ assemblyFile options p).reverse).lookup options.assemblyPlace =
      some (Assembly.fileText lines).toUTF8 := by
  have hassembly : assemblyFile options p =
      [(options.assemblyPlace, (Assembly.fileText lines).toUTF8)] := by
    rw [assemblyFile, if_neg (Bool.eq_false_iff.mp hcompile), hlines, Options.place_assemblyPath hout]
    rfl
  rw [List.reverse_append, hassembly]
  exact List.lookup_cons_self

end Script

/-! ### Ends of a run -/

/-- The place is as it was, or it was free and is a directory on the way to the output directory. -/
def Unwritten (options : Options) (files : FileTree) (report : Report) (x : List String) : Prop :=
  report.files.find? x = files.find? x ∨
    Path.OnWay options.output x ∧ files.find? x = none ∧ report.files.find? x = some .directory

namespace Pipeline

variable {options : Options} {files : FileTree} {sink : Sink} {report : Report}

/-- Where a run can end: before it comes to any file, or with the script of its program. -/
theorem run_cases {fuel : Nat} (h : run fuel options files sink = some report) :
    (report.files = files ∧ ((∃ e, report.result = .error (.loading e)) ∨
      ∃ name failure, report.result = .error (.running name failure))) ∨
    ∃ loaded sink', load options files = .ok loaded ∧
      report = finish (Script.ofLoaded options loaded) files sink' := by
  unfold run at h
  split at h
  · cases h
    exact .inl ⟨rfl, .inl ⟨_, rfl⟩⟩
  · next loaded hload =>
    extract_lets script at h
    split at h
    · cases h
      exact .inr ⟨loaded, sink, hload, rfl⟩
    · split at h
      · cases h
      · next o _ =>
        split at h
        · cases h
          exact .inl ⟨rfl, .inr ⟨_, _, rfl⟩⟩
        · cases h
          exact .inr ⟨loaded, o.sink, hload, rfl⟩

theorem finish_of_failed {script : Script} {after : FileTree} {trouble : Trouble}
    (h : files.perform script.actions = (after, some trouble)) (sink : Sink) :
    finish script files sink = ⟨after, sink, .error trouble⟩ := by
  rw [finish, h]

theorem finish_of_done {script : Script} {after : FileTree}
    (h : files.perform script.actions = (after, none)) (sink : Sink) :
    finish script files sink = ⟨after, sink, script.report⟩ := by
  rw [finish, h]

/-- What the script of a program has written when it ends: some artifacts if an operation has failed, the
tree if there was no code, and all artifacts otherwise. -/
theorem finish_changed (options : Options) (loaded : Loaded) (files : FileTree) (sink : Sink)
    {report : Report} (h : report = finish (Script.ofLoaded options loaded) files sink) :
    ∃ written, FileTree.Changed (Path.OnWay options.output) written files report.files ∧
      written ⊆ Script.treeFile options loaded.program ++ Script.assemblyFile options loaded.program ∧
      ((∃ trouble, report.result = .error trouble ∧ trouble.OfFiles) ∨
        (∃ failure, report.result = .error (.generating loaded.name failure) ∧
          (options.noRun = true → report.files = files) ∧
          written = Script.treeFile options loaded.program) ∨
        (options.noCompile = false → ∃ lines, loaded.program.compile = .ok lines) ∧
          report.result = .ok
            { tree := if options.noRun then none else some options.treePath
              assembly := if options.noCompile then none else some options.assemblyPath } ∧
          written = (Script.treeFile options loaded.program ++
            Script.assemblyFile options loaded.program).reverse) := by
  have hactions : (Script.ofLoaded options loaded).actions <+: Script.actionsOf options loaded := by
    rcases Script.ofLoaded_cases options loaded with ⟨_, h, -⟩ | ⟨-, h, -⟩
    · exact h ▸ List.prefix_append _ _
    · exact h ▸ List.prefix_rfl
  obtain ⟨done, hdone, hchanged, hend⟩ := FileTree.perform_changed
    (fun d hd x hx => Script.eq_output_of_make (hactions.subset hd) ▸ hx)
    (.refl : FileTree.Changed (Path.OnWay options.output) [] files files)
  rw [List.append_nil] at hchanged
  have hwritten : (done.filterMap Action.written?).reverse ⊆
      Script.treeFile options loaded.program ++ Script.assemblyFile options loaded.program := by
    rw [← Script.written_actionsOf]
    exact fun e he => ((hdone.trans hactions).filterMap _).subset (List.mem_reverse.mp he)
  cases hperform : files.perform (Script.ofLoaded options loaded).actions with
  | mk after trouble =>
    rw [hperform] at hchanged hend
    cases trouble with
    | some trouble =>
      rw [finish_of_failed hperform] at h
      subst h
      obtain ⟨a, ha, hblames⟩ := hend
      exact ⟨_, hchanged, hwritten,
        .inl ⟨trouble, rfl, Script.ofFiles_of_blames (hactions.subset ha) hblames⟩⟩
    | none =>
      rw [finish_of_done hperform] at h
      subst h
      obtain rfl : done = _ := hend
      refine ⟨_, hchanged, hwritten, .inr ?_⟩
      rcases Script.ofLoaded_cases options loaded with ⟨failure, hact, hreport⟩ | ⟨hcode, hact, hreport⟩
      · refine .inl ⟨failure, hreport, fun hrun => ?_, ?_⟩
        · have hnothing : (Script.treeDump options loaded.program).actions = [] := by
            rw [Script.treeDump, if_pos hrun]
          rw [hact, hnothing] at hperform
          exact (congrArg Prod.fst hperform).symm
        · rw [hact, Script.written_treeDump, Script.treeFile]
          split <;> rfl
      · exact .inr ⟨hcode, hreport, by rw [hact, Script.written_actionsOf]⟩

/-- What the artifacts of a run that succeeds contain. -/
theorem artifacts_of_ok (hout : options.output ≠ "") {fuel : Nat} {artifacts : Artifacts}
    (h : run fuel options files sink = some report) (hok : report.result = .ok artifacts) :
    ∃ loaded, load options files = .ok loaded ∧
      artifacts.tree = (if options.noRun then none else some options.treePath) ∧
      artifacts.assembly = (if options.noCompile then none else some options.assemblyPath) ∧
      (options.noRun = false → report.files.find? options.treePlace =
        some (.file (options.treeFormat.render loaded.program).toUTF8)) ∧
      (options.noCompile = false → ∃ lines, loaded.program.compile = .ok lines ∧
        report.files.find? options.assemblyPlace =
          some (.file (Assembly.fileText lines).toUTF8)) := by
  rcases run_cases h with ⟨-, ⟨e, he⟩ | ⟨name, failure, he⟩⟩ | ⟨loaded, sink', hload, hreport⟩
  · rw [he] at hok
    cases hok
  · rw [he] at hok
    cases hok
  · obtain ⟨written, hchanged, -, ⟨trouble, he, -⟩ | ⟨failure, he, -, -⟩ | ⟨hcode, hresult, hwritten⟩⟩ :=
      finish_changed options loaded files sink' hreport
    · rw [he] at hok
      cases hok
    · rw [he] at hok
      cases hok
    · obtain rfl := Except.ok.inj (hresult.symm.trans hok)
      subst hwritten
      refine ⟨loaded, hload, rfl, rfl, fun hrun => hchanged.file ?_, fun hcompile => ?_⟩
      · exact Script.lookup_treePlace hout hrun loaded.program
      · obtain ⟨lines, hlines⟩ := hcode hcompile
        exact ⟨lines, hlines, hchanged.file (Script.lookup_assemblyPlace hout hcompile hlines)⟩

/-- Nothing is different when a run fails before it comes to any file. -/
theorem files_of_error {fuel : Nat} {trouble : Trouble} (h : run fuel options files sink = some report)
    (he : report.result = .error trouble) (hfiles : ¬ trouble.OfFiles)
    (hcode : ∀ name failure, trouble ≠ .generating name failure) : report.files = files := by
  rcases run_cases h with ⟨hfiles, -⟩ | ⟨loaded, sink', -, hreport⟩
  · exact hfiles
  · obtain ⟨_, -, -, ⟨trouble', he', hof⟩ | ⟨failure, he', -⟩ | ⟨-, he', -⟩⟩ :=
      finish_changed options loaded files sink' hreport
    · rw [he'] at he
      exact absurd (Except.error.inj he ▸ hof) hfiles
    · rw [he'] at he
      exact absurd (Except.error.inj he).symm (hcode _ _)
    · rw [he'] at he
      cases he

/-- A place is as it was, or a directory on the way to the output directory, or that of an artifact which
is complete. -/
theorem find?_of_run (hout : options.output ≠ "") {fuel : Nat}
    (h : run fuel options files sink = some report) (x : List String) :
    Unwritten options files report x ∨ ∃ loaded, load options files = .ok loaded ∧
      (options.noRun = false ∧ x = options.treePlace ∧
        report.files.find? x = some (.file (options.treeFormat.render loaded.program).toUTF8) ∨
      options.noCompile = false ∧ x = options.assemblyPlace ∧
        ∃ lines, loaded.program.compile = .ok lines ∧
          report.files.find? x = some (.file (Assembly.fileText lines).toUTF8)) := by
  rcases run_cases h with ⟨hfiles, -⟩ | ⟨loaded, sink', hload, hreport⟩
  · exact .inl (.inl (hfiles ▸ rfl))
  · obtain ⟨written, hchanged, hwritten, -⟩ := finish_changed options loaded files sink' hreport
    cases hx : written.lookup x with
    | none => exact .inl (hchanged.unwritten hx)
    | some content =>
      have hfile := hchanged.file hx
      have hmem : (x, content) ∈ written := by
        obtain ⟨first, second, rfl, -⟩ := List.lookup_eq_some_iff.mp hx
        exact List.mem_append_right _ List.mem_cons_self
      refine .inr ⟨loaded, hload, ?_⟩
      rcases List.mem_append.mp (hwritten hmem) with htree | hassembly
      · obtain ⟨hrun, heq⟩ := Script.eq_of_mem_treeFile hout htree
        obtain ⟨rfl, rfl⟩ := Prod.mk.inj heq
        exact .inl ⟨hrun, rfl, hfile⟩
      · obtain ⟨hcompile, lines, hlines, heq⟩ := Script.eq_of_mem_assemblyFile hout hassembly
        obtain ⟨rfl, rfl⟩ := Prod.mk.inj heq
        exact .inr ⟨hcompile, rfl, lines, hlines, hfile⟩

/-- If no code could be generated, the tree is there and the listing is not. -/
theorem files_of_generating (hout : options.output ≠ "") {fuel : Nat} {name : String}
    {failure : Failure} (h : run fuel options files sink = some report)
    (hfailed : report.result = .error (.generating name failure)) :
    Unwritten options files report options.assemblyPlace ∧
      (options.noRun = true → report.files = files) ∧
      (options.noRun = false → ∃ loaded, load options files = .ok loaded ∧
        report.files.find? options.treePlace =
          some (.file (options.treeFormat.render loaded.program).toUTF8)) := by
  rcases run_cases h with ⟨-, ⟨e, he⟩ | ⟨name, failure, he⟩⟩ | ⟨loaded, sink', hload, hreport⟩
  · rw [he] at hfailed
    cases hfailed
  · rw [he] at hfailed
    cases hfailed
  · obtain ⟨written, hchanged, -, ⟨trouble, he, hfiles⟩ | ⟨failure, -, hnothing, rfl⟩ | ⟨-, he, -⟩⟩ :=
      finish_changed options loaded files sink' hreport
    · rw [he] at hfailed
      obtain rfl := Except.error.inj hfailed
      exact hfiles.elim
    · refine ⟨hchanged.unwritten ?_, hnothing, fun hrun => ⟨loaded, hload, hchanged.file ?_⟩⟩
      · rw [List.lookup_eq_none_iff]
        intro e he
        obtain ⟨-, rfl⟩ := Script.eq_of_mem_treeFile hout he
        exact bne_iff_ne.mpr (Options.treePlace_ne options).symm
      · rw [Script.treeFile, if_neg (Bool.eq_false_iff.mp hrun), Options.place_treePath hout]
        exact List.lookup_cons_self
    · rw [he] at hfailed
      cases hfailed

end Pipeline

/-- **What a run leaves behind.**  Let a command line ask for a run, and let the run end, on any files.

* Every place is as it was, or it was free and is a directory on the way to the output directory, or it is
  the place of the tree or of the listing in the output directory, its pass was asked for, and the artifact
  is complete.
* If the program could not be loaded, or its run has failed, nothing is different.
* If no code could be generated, the place of the listing is as it was, unless a directory had to be made
  there on the way to the output directory.  Nothing is different if the program was not to be run, and
  otherwise the tree is there.
* If the run succeeds, each artifact is reported and complete if its pass was asked for.  Otherwise it is
  not reported, and its place is as it was, with the same exception.
* What one artifact contains does not depend on whether the other one was asked for. -/
theorem run_leaves_artifacts {arguments : List String} {options : Options}
    (hargs : Options.ofArguments arguments = .ok options) {fuel : Nat} {files : FileTree} {sink : Sink}
    {report : Report} (h : Pipeline.run fuel options files sink = some report) :
    (∀ x, Unwritten options files report x ∨ ∃ loaded, Pipeline.load options files = .ok loaded ∧
      (options.noRun = false ∧ x = options.treePlace ∧
        report.files.find? x = some (.file (options.treeFormat.render loaded.program).toUTF8) ∨
      options.noCompile = false ∧ x = options.assemblyPlace ∧
        ∃ lines, loaded.program.compile = .ok lines ∧
          report.files.find? x = some (.file (Assembly.fileText lines).toUTF8))) ∧
    (∀ e, report.result = .error (.loading e) → report.files = files) ∧
    (∀ name failure, report.result = .error (.running name failure) → report.files = files) ∧
    (∀ name failure, report.result = .error (.generating name failure) →
      Unwritten options files report options.assemblyPlace ∧
      (options.noRun = true → report.files = files) ∧
      (options.noRun = false → ∃ loaded, Pipeline.load options files = .ok loaded ∧
        report.files.find? options.treePlace =
          some (.file (options.treeFormat.render loaded.program).toUTF8))) ∧
    (∀ artifacts, report.result = .ok artifacts → ∃ loaded, Pipeline.load options files = .ok loaded ∧
      artifacts.tree = (if options.noRun then none else some options.treePath) ∧
      artifacts.assembly = (if options.noCompile then none else some options.assemblyPath) ∧
      (options.noRun = true → Unwritten options files report options.treePlace) ∧
      (options.noRun = false → report.files.find? options.treePlace =
        some (.file (options.treeFormat.render loaded.program).toUTF8)) ∧
      (options.noCompile = true → Unwritten options files report options.assemblyPlace) ∧
      (options.noCompile = false → ∃ lines, loaded.program.compile = .ok lines ∧
        report.files.find? options.assemblyPlace =
          some (.file (Assembly.fileText lines).toUTF8))) ∧
    (∀ noRun fuel' sink' report' artifacts artifacts', options.noCompile = false →
      report.result = .ok artifacts → report'.result = .ok artifacts' →
      Pipeline.run fuel' { options with noRun } files sink' = some report' →
      report'.files.find? options.assemblyPlace = report.files.find? options.assemblyPlace) ∧
    ∀ noCompile fuel' sink' report' artifacts artifacts', options.noRun = false →
      report.result = .ok artifacts → report'.result = .ok artifacts' →
      Pipeline.run fuel' { options with noCompile } files sink' = some report' →
      report'.files.find? options.treePlace = report.files.find? options.treePlace := by
  have hout := Options.output_ne_empty hargs
  have hplaces := Pipeline.find?_of_run hout h
  refine ⟨hplaces, fun e he => ?_, fun name failure he => ?_,
    fun name failure => Pipeline.files_of_generating hout h, fun artifacts hok => ?_, ?_, ?_⟩
  · exact Pipeline.files_of_error h he id nofun
  · exact Pipeline.files_of_error h he id nofun
  · obtain ⟨loaded, hload, htree, hassembly, htreeFile, hassemblyFile⟩ :=
      Pipeline.artifacts_of_ok hout h hok
    refine ⟨loaded, hload, htree, hassembly, fun hrun => ?_, htreeFile, fun hcompile => ?_,
      hassemblyFile⟩
    · rcases hplaces options.treePlace with hkept | ⟨_, -, ⟨hrun', -⟩ | ⟨-, hplace, -⟩⟩
      · exact hkept
      · exact absurd hrun (Bool.eq_false_iff.mp hrun')
      · exact absurd hplace (Options.treePlace_ne options)
    · rcases hplaces options.assemblyPlace with hkept | ⟨_, -, ⟨-, hplace, -⟩ | ⟨hcompile', -⟩⟩
      · exact hkept
      · exact absurd hplace.symm (Options.treePlace_ne options)
      · exact absurd hcompile (Bool.eq_false_iff.mp hcompile')
  · intro noRun fuel' sink' report' artifacts artifacts' hcompile hok hok' h'
    have hout' : ({ options with noRun } : Options).output ≠ "" := hout
    obtain ⟨loaded, hload, -, -, -, hfile⟩ := Pipeline.artifacts_of_ok hout h hok
    obtain ⟨loaded', hload', -, -, -, hfile'⟩ := Pipeline.artifacts_of_ok hout' h' hok'
    obtain rfl := Except.ok.inj (hload.symm.trans hload')
    obtain ⟨lines, hlines, hfind⟩ := hfile hcompile
    obtain ⟨lines', hlines', hfind'⟩ := hfile' hcompile
    obtain rfl := Except.ok.inj (hlines.symm.trans hlines')
    exact hfind'.trans hfind.symm
  · intro noCompile fuel' sink' report' artifacts artifacts' hrun hok hok' h'
    have hout' : ({ options with noCompile } : Options).output ≠ "" := hout
    obtain ⟨loaded, hload, -, -, hfind, -⟩ := Pipeline.artifacts_of_ok hout h hok
    obtain ⟨loaded', hload', -, -, hfind', -⟩ := Pipeline.artifacts_of_ok hout' h' hok'
    obtain rfl := Except.ok.inj (hload.symm.trans hload')
    exact (hfind' hrun).trans (hfind hrun).symm

/-- one file with a program in it -/
def oneFile (source : String) : FileTree := ⟨[(["in.mj"], .file source.toUTF8)]⟩

theorem run_leaves_artifacts_print :
    ∃ options report, Options.ofArguments ["in.mj", "-o", "out"] = .ok options ∧
      Pipeline.run 3 options (oneFile "print(1);") {} = some report ∧
      report.result = .ok { tree := some "out/ast.txt", assembly := some "out/program.s" } ∧
      (∃ loaded, Pipeline.load options (oneFile "print(1);") = .ok loaded ∧
        report.files.find? ["out", "ast.txt"] = some (.file (loaded.program.sexpr ++ "\n").toUTF8)) ∧
      Unwritten options (oneFile "print(1);") report ["in.mj"] := by
  have hargs : Options.ofArguments ["in.mj", "-o", "out"] =
      .ok { input := some "in.mj", output := "out" } := by decide +kernel
  obtain ⟨report, hrun, hresult⟩ : ∃ report,
      Pipeline.run 3 { input := some "in.mj", output := "out" } (oneFile "print(1);") {} = some report ∧
        report.result = .ok { tree := some "out/ast.txt", assembly := some "out/program.s" } :=
    Option.map_eq_some_iff.mp (by decide +kernel)
  obtain ⟨hplaces, -, -, -, hok, -⟩ := run_leaves_artifacts hargs hrun
  obtain ⟨loaded, hload, -, -, -, htree, -⟩ := hok _ hresult
  refine ⟨_, report, hargs, hrun, hresult, ⟨loaded, hload, htree rfl⟩, ?_⟩
  rcases hplaces ["in.mj"] with h | ⟨_, -, ⟨-, hplace, -⟩ | ⟨-, hplace, -⟩⟩
  · exact h
  · exact absurd hplace (by decide +kernel)
  · exact absurd hplace (by decide +kernel)

/-- The way to the output directory may lead through the place of the listing.  Then a directory is made
there for the tree, although no code could be generated afterwards. -/
theorem directory_in_place_of_listing :
    ∃ options report failure, Options.ofArguments ["in.mj", "-o", "program.s/.."] = .ok options ∧
      Pipeline.run 3 options (oneFile "print(1.5);") {} = some report ∧
      report.result = .error (.generating "in.mj" failure) ∧
      options.assemblyPlace = ["program.s"] ∧
      (oneFile "print(1.5);").find? options.assemblyPlace = none ∧
      report.files.find? options.assemblyPlace = some .directory := by
  have hargs : Options.ofArguments ["in.mj", "-o", "program.s/.."] =
      .ok { input := some "in.mj", output := "program.s/.." } := by decide +kernel
  obtain ⟨report, hrun, hresult⟩ : ∃ report,
      Pipeline.run 3 { input := some "in.mj", output := "program.s/.." } (oneFile "print(1.5);") {} =
          some report ∧
        (report.result, report.files.find? ["program.s"]) =
          (.error (.generating "in.mj" (.unsupportedFeature (.floatLiteral 1.5))), some .directory) :=
    Option.map_eq_some_iff.mp (by decide +kernel)
  obtain ⟨herror, hdirectory⟩ := Prod.mk.inj hresult
  exact ⟨_, report, _, hargs, hrun, herror, by decide +kernel, by decide +kernel, hdirectory⟩

end TinyScript
