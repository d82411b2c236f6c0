import Ambient.Command.Execute
import Ambient.Proofs.Files.Lookup
import Ambient.Proofs.Files.Output

/-!
# What a failed run leaves behind

Arguments, settings and metadata are read before anything is written, and the
search for the aliases is made before it too, so a run that fails on them leaves
the tree as it was. The output is opened next. A run that then finds no working
directory leaves an empty output file. The base declarations are read after the
first line went to the output: a run that fails on them leaves the first line in
it. Every other file is as it was (`files_of_execute_error`).
-/

namespace Ambient

variable {now path text : String} {config : Config} {lib : Library} {host : Host}
variable {fs fs' : FileSystem} {o o' : Output} {location : Location} {error : EmitError}

/-! ## Before the output is open -/

/-- A host refuses the names of aliases that there are. -/
theorem Host.compile_eq_error_iff :
    host.compile config = .error error ↔ ∃ reason, config.aliases.keys ≠ [] ∧
      host.refusal? config.aliases.keys = some reason ∧ error = .aliasTable reason := by
  rw [compile]
  by_cases hkeys : config.aliases.keys = []
  · simp [hkeys]
  · rw [if_neg hkeys]
    cases host.refusal? config.aliases.keys with
    | none => simp
    | some reason => simp [hkeys, eq_comm]

theorem Host.compile_of_refusal?_eq_none (h : host.refusal? config.aliases.keys = none) :
    host.compile config = .ok () := by
  rw [compile, h, Option.elim_none, ite_self]

/-! ## With the output open -/

/-- All that was done to a tree is that the file a path is opened at has this
text, if no device stands there. Every other file is as it was. -/
def FileSystem.Wrote (fs : FileSystem) (path text : String) (fs' : FileSystem) : Prop :=
  ∃ location opened, fs.create path = .ok (location, opened) ∧
    ∀ other, fs'.file? other =
      if other = location ∧ fs.isDevice location = false then some (.file text.toUTF8)
      else fs.file? other

/-- An output that is released has written what it got. -/
theorem Output.Carries.wrote (h : o.Carries fs location text.toUTF8)
    (hcreate : fs.create path = .ok (location, fs')) : fs.Wrote path text o.release := by
  refine ⟨location, fs', hcreate, ?_⟩
  rw [h.release]
  exact FileSystem.file?_fill (FileSystem.create_eq_ok hcreate).1 _

/-- Base declarations that cannot be read are named. -/
theorem readTemplate_eq_error (h : readTemplate config fs = .error error) :
    ∃ path cause, error = .template path cause ∧ config.baseTemplate = some path := by
  rw [readTemplate] at h
  cases htemplate : config.baseTemplate with
  | none => simp [htemplate] at h
  | some named =>
    simp only [htemplate] at h
    obtain ⟨cause, -, rfl⟩ := mapError_eq_error_iff.1 h
    exact ⟨named, cause, rfl, rfl⟩

/-- **Where writing to an open output fails**, other than on the output itself:
on the working directory, before anything is written, or on the base
declarations, when the first line is. -/
theorem emitTo_eq_error (h : emitTo now config lib o = (.error error, o'))
    (hinput : ∀ cause, error ≠ .output cause) :
    (∃ cause, error = .currentDir cause ∧ o.fs.currentDir = .error cause ∧ o' = o) ∨
      ∃ path cause, error = .template path cause ∧ config.baseTemplate = some path ∧
        o.write ((headingPiece now config).render config) = (.ok (), o') := by
  rw [emitTo] at h
  split at h
  · rename_i e hcwd
    obtain ⟨rfl, rfl⟩ : e = error ∧ o = o' := by simpa using h
    obtain ⟨cause, hcause, rfl⟩ := mapError_eq_error_iff.1 hcwd
    exact .inl ⟨cause, rfl, hcause, rfl⟩
  · split at h
    · rename_i e o₁ hwrite
      obtain ⟨rfl, rfl⟩ : .output e = error ∧ o₁ = o' := by simpa using h
      exact absurd rfl (hinput e)
    · rename_i o₁ hwrite
      split at h
      · rename_i e hread
        obtain ⟨rfl, rfl⟩ : e = error ∧ o₁ = o' := by simpa using h
        obtain ⟨path, cause, rfl, htemplate⟩ := readTemplate_eq_error hread
        exact .inr ⟨path, cause, rfl, htemplate, hwrite⟩
      · obtain ⟨hresult, -⟩ := Prod.mk.inj h
        obtain ⟨cause, -, rfl⟩ := mapError_eq_error_iff.1 hresult
        exact absurd rfl (hinput cause)

/-- **What such a failure leaves in the output**: nothing, or the first line. -/
theorem process_eq_error (h : process now config lib fs = (.error error, fs'))
    (hinput : ∀ cause, error ≠ .output cause) :
    (∃ cause, error = .currentDir cause ∧ fs.currentDir = .error cause ∧
        fs.Wrote config.output "" fs') ∨
      ∃ path cause, error = .template path cause ∧ config.baseTemplate = some path ∧
        fs.Wrote config.output ((headingPiece now config).render config) fs' := by
  rw [process, Output.create] at h
  cases hcreate : fs.create config.output with
  | error cause =>
    simp only [hcreate, Prod.mk.injEq, Except.error.injEq] at h
    exact absurd h.1.symm (hinput _)
  | ok opened =>
    obtain ⟨location, opened⟩ := opened
    obtain ⟨hadmits, hopened⟩ := FileSystem.create_eq_ok hcreate
    have hcarries := Output.carries_of_create hcreate
    simp only [hcreate] at h
    split at h
    · rename_i e o' hemit
      obtain ⟨rfl, rfl⟩ : e = error ∧ o'.release = fs' := by simpa using h
      obtain ⟨cause, rfl, hcwd, rfl⟩ | ⟨path, cause, rfl, htemplate, hwrite⟩ :=
        emitTo_eq_error hemit hinput
      · rw [hopened, FileSystem.currentDir_fill hadmits] at hcwd
        exact .inl ⟨cause, rfl, hcwd, hcarries.wrote hcreate⟩
      · have hfirst := hcarries.write hwrite
        rw [ByteArray.empty_append] at hfirst
        exact .inr ⟨path, cause, rfl, htemplate, hfirst.wrote hcreate⟩
    · obtain ⟨hresult, -⟩ := Prod.mk.inj h
      obtain ⟨cause, -, rfl⟩ := mapError_eq_error_iff.1 hresult
      exact absurd rfl (hinput cause)

namespace GenerateArgs

variable {args : GenerateArgs} {e : CommandError}

/-- Reading the inputs does not fail on writing. -/
theorem prepare_ne_emit_error (h : args.prepare fs = .error e) (error : EmitError) :
    e ≠ .emit error := by
  rw [prepare] at h
  rintro rfl
  cases hdir : args.metaDir with
  | none => simp [hdir, bind, Except.bind] at h
  | some directory =>
    cases hsettings : loadConfig fs args.settings with
    | error e => simp [hdir, hsettings, bind, Except.bind] at h
    | ok config =>
      cases hload : Library.load fs directory with
      | error e => simp [hdir, hsettings, hload, bind, Except.bind] at h
      | ok lib =>
        simp [hdir, hsettings, hload, bind, Except.bind, pure, Except.pure] at h

/-- **Where a run fails**: on its inputs, on the search for the aliases, or in
writing the file. -/
theorem execute_eq_error (h : args.execute host fs = (.error e, fs')) :
    (args.prepare fs = .error e ∧ fs' = fs) ∨
      ∃ config lib, args.prepare fs = .ok (config, lib) ∧
        ((∃ error, e = .emit error ∧ host.compile config = .error error ∧ fs' = fs) ∨
          ∃ error, e = .emit error ∧ host.compile config = .ok () ∧
            process host.now config lib fs = (.error error, fs')) := by
  rw [execute] at h
  split at h
  · rename_i e' hprepare
    obtain ⟨rfl, rfl⟩ : e' = e ∧ fs = fs' := by simpa using h
    exact .inl ⟨hprepare, rfl⟩
  · rename_i config lib hprepare
    refine .inr ⟨config, lib, hprepare, ?_⟩
    split at h
    · rename_i error hcompile
      obtain ⟨rfl, rfl⟩ : .emit error = e ∧ fs = fs' := by simpa using h
      exact .inl ⟨error, rfl, hcompile, rfl⟩
    · rename_i hcompile
      rcases hprocess : process host.now config lib fs with ⟨result, left⟩
      simp only [hprocess] at h
      cases result with
      | ok done => simp [Except.map] at h
      | error error =>
        obtain ⟨rfl, rfl⟩ : .emit error = e ∧ left = fs' := by simpa [Except.map] using h
        exact .inr ⟨error, rfl, hcompile, rfl⟩

/-- **What a run leaves that fails on its inputs.** All is as before, also when
the search for the aliases is refused, which is before the output is opened.
Where there is no working directory, or the base declarations cannot be read,
the output was open already. Its file is empty in the first case and has the
first line and nothing else in the second, a device in its place is as before,
and so is every other file. -/
theorem files_of_execute_error (h : args.execute host fs = (.error e, fs'))
    (hinput : ∀ error, e ≠ .emit (.output error)) :
    ((∀ cause, e ≠ .emit (.currentDir cause)) → (∀ path cause, e ≠ .emit (.template path cause)) →
        fs' = fs) ∧
      (∀ reason, e = .emit (.aliasTable reason) →
        ∃ config lib, args.prepare fs = .ok (config, lib) ∧
          host.refusal? config.aliases.keys = some reason ∧ fs' = fs) ∧
      (∀ cause, e = .emit (.currentDir cause) →
        ∃ config lib, args.prepare fs = .ok (config, lib) ∧ host.compile config = .ok () ∧
          fs.currentDir = .error cause ∧ fs.Wrote config.output "" fs') ∧
      ∀ path cause, e = .emit (.template path cause) →
        ∃ config lib, args.prepare fs = .ok (config, lib) ∧ host.compile config = .ok () ∧
          config.baseTemplate = some path ∧
          fs.Wrote config.output ((headingPiece host.now config).render config) fs' := by
  obtain ⟨hprepare, rfl⟩ | ⟨config, lib, hprepare, ⟨error, rfl, hcompile, rfl⟩ |
    ⟨error, rfl, hcompile, hprocess⟩⟩ := execute_eq_error h
  · exact ⟨fun _ _ => rfl, fun _ he => absurd he (prepare_ne_emit_error hprepare _),
      fun _ he => absurd he (prepare_ne_emit_error hprepare _),
      fun _ _ he => absurd he (prepare_ne_emit_error hprepare _)⟩
  · obtain ⟨reason, -, hreason, rfl⟩ := Host.compile_eq_error_iff.1 hcompile
    refine ⟨fun _ _ => rfl, ?_, (fun _ he => by cases he), (fun _ _ he => by cases he)⟩
    rintro _ ⟨⟩
    exact ⟨config, lib, hprepare, hreason, rfl⟩
  · obtain ⟨cause, rfl, hcwd, hwrote⟩ | ⟨path, cause, rfl, htemplate, hwrote⟩ :=
      process_eq_error hprocess fun cause heq => hinput cause (congrArg _ heq)
    · refine ⟨fun hother => absurd rfl (hother cause), (fun _ he => by cases he), ?_,
        (fun _ _ he => by cases he)⟩
      rintro _ ⟨⟩
      exact ⟨config, lib, hprepare, hcompile, hcwd, hwrote⟩
    · refine ⟨fun _ hother => absurd rfl (hother path cause), (fun _ he => by cases he),
        (fun _ he => by cases he), ?_⟩
      rintro _ _ ⟨⟩
      exact ⟨config, lib, hprepare, hcompile, htemplate, hwrote⟩

end GenerateArgs

/-! ## A failed run -/

/-- A directory with nothing in it has no class. -/
theorem load_of_empty {directory : String} (hentry : fs.entry directory = .ok (.folder [])) :
    Library.load fs directory = .ok (.empty directory) := by
  rw [Library.load, hentry]
  simp only [Entry.files, Entry.filesOfChildren, List.mergeSort_nil, List.flatMap_nil,
    List.filter_nil, List.foldlM_nil]
  rfl

/-- A tree with a directory of metadata and a declaration file. -/
def standing : FileSystem :=
  ⟨.folder [("meta", .folder []), ("out.d.ts", .file "old\n".toUTF8)], []⟩

/-- Arguments that name base declarations which that tree does not have. -/
def misdirected : GenerateArgs :=
  ⟨some "meta", some "out.d.ts", none, some "base.d.ts", some "T"⟩

/-- That tree when its working directory was removed. -/
def adrift : FileSystem := { standing with cwd := ["gone"] }

/-- Arguments that are nothing to the working directory. -/
def anchored : GenerateArgs :=
  ⟨some "/meta", some "/out.d.ts", none, none, some "T"⟩

/-- A host that refuses no names. -/
def obliging : Host := ⟨"", fun _ => none⟩

/-- The tree when the declaration file was opened again. -/
def reopened : FileSystem := standing.write ["out.d.ts"] ByteArray.empty

/-- Arguments that name a directory without records and no settings. -/
theorem prepare_of_empty {args : GenerateArgs} {directory : String}
    (hdir : args.metaDir = some directory) (hsettings : args.settings = none)
    (hentry : fs.entry directory = .ok (.folder [])) :
    args.prepare fs = .ok (args.apply .default, .empty directory) := by
  simp only [GenerateArgs.prepare, hdir, hsettings, loadConfig, load_of_empty hentry,
    Option.elim_some, bind, Except.bind, mapError_ok]
  rfl

/-- The run fails on the base declarations, with the first line in the output. -/
theorem execute_misdirected :
    misdirected.execute obliging standing =
      (.error (.emit (.template "base.d.ts" .notFound)),
        standing.write ["out.d.ts"] "// Generated declaration file at T\n".toUTF8) := by
  have hprepare : misdirected.prepare standing = .ok (misdirected.apply .default, .empty "meta") :=
    prepare_of_empty rfl rfl rfl
  have hcompile : obliging.compile (misdirected.apply .default) = .ok () :=
    Host.compile_of_refusal?_eq_none rfl
  have hcreate : Output.create standing (misdirected.apply .default).output =
      .ok ⟨"out.d.ts", ["out.d.ts"], "", reopened⟩ := rfl
  have hcwd : readCurrentDir reopened = .ok "/" := rfl
  have hwrite : (Output.mk "out.d.ts" ["out.d.ts"] "" reopened).write
      ((headingPiece obliging.now (misdirected.apply .default)).render
        (misdirected.apply .default)) =
      (.ok (), ⟨"out.d.ts", ["out.d.ts"], "// Generated declaration file at T\n", reopened⟩) := rfl
  have hread : readTemplate (misdirected.apply .default) reopened =
      .error (.template "base.d.ts" .notFound) := rfl
  simp only [GenerateArgs.execute, hprepare, hcompile, process, hcreate, emitTo, hcwd, hwrite,
    hread]
  rfl

/-- The run fails on the working directory, with nothing in the output. -/
theorem execute_anchored :
    anchored.execute obliging adrift =
      (.error (.emit (.currentDir .notFound)),
        adrift.write ["out.d.ts"] ByteArray.empty) := by
  have hprepare : anchored.prepare adrift = .ok (anchored.apply .default, .empty "/meta") :=
    prepare_of_empty rfl rfl rfl
  have hcompile : obliging.compile (anchored.apply .default) = .ok () :=
    Host.compile_of_refusal?_eq_none rfl
  have hcreate : Output.create adrift (anchored.apply .default).output =
      .ok ⟨"/out.d.ts", ["out.d.ts"], "", adrift.write ["out.d.ts"] ByteArray.empty⟩ := rfl
  have hcwd : readCurrentDir (adrift.write ["out.d.ts"] ByteArray.empty) =
      .error (.currentDir .notFound) := rfl
  simp only [GenerateArgs.execute, hprepare, hcompile, process, hcreate, emitTo, hcwd]
  rfl

/-- What both runs leave. -/
theorem files_misdirected :
    (∃ fs', misdirected.execute obliging standing =
        (.error (.emit (.template "base.d.ts" .notFound)), fs') ∧
      ∃ config, config.baseTemplate = some "base.d.ts" ∧
        standing.Wrote config.output ((headingPiece "" config).render config) fs') ∧
    ∃ fs', anchored.execute obliging adrift = (.error (.emit (.currentDir .notFound)), fs') ∧
      ∃ config : Config, adrift.Wrote config.output "" fs' := by
  have htemplate : ∀ error, CommandError.emit (.template "base.d.ts" .notFound) ≠
      .emit (.output error) := fun _ => by simp
  have hcwd : ∀ error, CommandError.emit (.currentDir .notFound) ≠
      .emit (.output error) := fun _ => by simp
  obtain ⟨-, -, -, hfiles⟩ := GenerateArgs.files_of_execute_error execute_misdirected htemplate
  obtain ⟨config, -, -, -, hnamed, hwrote⟩ := hfiles _ _ rfl
  obtain ⟨-, -, hfiles', -⟩ := GenerateArgs.files_of_execute_error execute_anchored hcwd
  obtain ⟨config', -, -, -, -, hwrote'⟩ := hfiles' _ rfl
  exact ⟨⟨_, execute_misdirected, config, hnamed, hwrote⟩, ⟨_, execute_anchored, config', hwrote'⟩⟩

/-- **A declaration file can be lost to a failure.** The one that stood at
the output path is not as it was. -/
theorem files_misdirected_ne :
    ∃ e fs', misdirected.execute obliging standing = (.error e, fs') ∧
      (∀ error, e ≠ .emit (.output error)) ∧
      fs'.file? ["out.d.ts"] ≠ standing.file? ["out.d.ts"] := by
  refine ⟨_, _, execute_misdirected, fun _ => by simp, fun hsame => ?_⟩
  have hafter : (standing.write ["out.d.ts"]
      "// Generated declaration file at T\n".toUTF8).file? ["out.d.ts"] =
      some (.file "// Generated declaration file at T\n".toUTF8) := rfl
  have hbefore : standing.file? ["out.d.ts"] = some (.file "old\n".toUTF8) := rfl
  rw [hafter, hbefore, Option.some.injEq, Entry.file.injEq] at hsame
  have hsize := congrArg ByteArray.size hsame
  revert hsize
  decide

end Ambient
