import Ambient.Proofs.Declaration.Layout
import Ambient.Proofs.Files.Lookup
import Ambient.Proofs.Files.Output

/-!
# Writing a declaration file and giving its text

Writing a file opens it before the base declarations are read, and giving its
text opens none. When a file was written its content is a text with the base
declarations that were read from the tree with the open output
(`process_eq_ok`). By `readText_output_of_process` that is the text that is
given, unless the base declarations are looked for in the output file itself:
there is nothing to be read of them any more.
-/

namespace Ambient

variable {now time template path text : String} {config : Config} {lib : Library}
variable {fs fs' : FileSystem} {location : Location} {content : ByteArray}
variable {o o' : Output}

/-- The text of the file with the given base declarations. -/
def fileText (now : String) (config : Config) (lib : Library) (fs : FileSystem)
    (template : String) : String :=
  renderPieces config (filePieces fs.workingDirectory now config lib template)

/-- The first line of the file. -/
def headingText (now : String) (config : Config) : String :=
  (headingPiece now config).render config

/-- What follows the base declarations. -/
def tailText (config : Config) (lib : Library) (fs : FileSystem) : String :=
  renderPieces config (.blankLine :: declarationPieces fs.workingDirectory config lib)

theorem fileText_eq (now : String) (config : Config) (lib : Library) (fs : FileSystem)
    (template : String) :
    fileText now config lib fs template =
      headingText now config ++ (template ++ tailText config lib fs) := by
  rw [fileText, filePieces, renderPieces_cons, renderPieces_cons]
  rfl

/-- Files with other base declarations have other texts. -/
theorem fileText_inj {template' : String} :
    fileText now config lib fs template = fileText now config lib fs template' ↔
      template = template' := by
  rw [fileText_eq, fileText_eq]
  constructor
  · intro h
    rw [← String.toList_inj] at h ⊢
    simpa using h
  · rintro rfl
    rfl

/-- In a working directory that is there the base declarations settle the text. -/
theorem emit_eq_map {cwd : String} (hcwd : fs.currentDir = .ok cwd) :
    emit now config lib fs = (readTemplate config fs).map (fileText now config lib fs) := by
  obtain ⟨-, rfl⟩ := FileSystem.currentDir_eq_ok_iff.1 hcwd
  rw [emit_eq, readCurrentDir, hcwd]
  rfl

/-- With a fixed time of generation it does not matter when the file is made. -/
theorem fileText_congr_now (htime : config.timestamp = some time) (now now' : String) :
    fileText now config lib fs template = fileText now' config lib fs template := by
  have hheading : headingText now config = headingText now' config := by
    rw [headingText, headingText, headingPiece, headingPiece, htime]
    rfl
  rw [fileText_eq, fileText_eq, hheading]

/-! ## A run that succeeds -/

/-- The working directory is asked for, the base declarations are read when the
first line is written, and the rest is written with them. -/
theorem emitTo_eq_ok (h : emitTo now config lib o = (.ok (), o')) :
    ∃ cwd o₁ template, o.fs.currentDir = .ok cwd ∧
      o.write (headingText now config) = (.ok (), o₁) ∧
      readTemplate config o₁.fs = .ok template ∧
      o₁.writeAll ((Piece.template template :: .blankLine ::
        declarationPieces cwd config lib).map (Piece.render config)) = (.ok (), o') := by
  rw [emitTo] at h
  split at h
  · cases h
  · rename_i cwd hcwd
    split at h
    · cases h
    · rename_i o₁ hwrite
      split at h
      · cases h
      · rename_i template hread
        obtain ⟨hresult, rfl⟩ := Prod.mk.inj h
        exact ⟨cwd, o₁, template, mapError_eq_ok_iff.1 hcwd, hwrite, hread,
          Prod.ext (mapError_eq_ok_iff.1 hresult) rfl⟩

/-- **What a run has written when it succeeds**: the text with the base
declarations that were read from the tree in which the output was open. -/
theorem process_eq_ok (h : process now config lib fs = (.ok (), fs')) :
    ∃ location opened template, fs.create config.output = .ok (location, opened) ∧
      fs.isDevice location = false ∧ fs.currentDir = .ok fs.workingDirectory ∧
      readTemplate config
        (fs.fill location (Output.reached (headingText now config)).toUTF8) = .ok template ∧
      fs' = fs.fill location (fileText now config lib fs template).toUTF8 := by
  rw [process, Output.create] at h
  cases hcreate : fs.create config.output with
  | error cause => simp [hcreate] at h
  | ok opened =>
    obtain ⟨location, opened⟩ := opened
    simp only [hcreate] at h
    split at h
    · cases h
    · rename_i o' hemit
      obtain ⟨cwd, o₁, template, hcwd, hfirst, hread, hrest⟩ := emitTo_eq_ok hemit
      obtain ⟨hadmits, hopened⟩ := FileSystem.create_eq_ok hcreate
      rw [hopened, FileSystem.currentDir_fill hadmits] at hcwd
      obtain ⟨-, rfl⟩ := FileSystem.currentDir_eq_ok_iff.1 hcwd
      have hfs : o₁.fs = fs.fill location (Output.reached (headingText now config)).toUTF8 :=
        Output.fs_of_write_first hcreate hfirst
      have hcarries := ((Output.carries_of_create hcreate).write hfirst).writeAll hrest
      rw [ByteArray.empty_append, ← toUTF8_append] at hcarries
      have hfinish : o'.finish = (.ok (), fs') := by
        obtain ⟨hresult, hleft⟩ := Prod.mk.inj h
        exact Prod.ext (mapError_eq_ok_iff.1 hresult) hleft
      obtain ⟨hdevice, hleft⟩ := hcarries.finish hfinish
      refine ⟨location, opened, template, rfl, hdevice, hcwd, hfs ▸ hread, ?_⟩
      rw [hleft, ← renderPieces, renderPieces_cons, fileText_eq]
      rfl

/-! ## The base declarations of a run -/

theorem readTemplate_of_named (h : config.baseTemplate = some path) :
    readTemplate config fs = (fs.readText path).mapError (.template path) := by
  rw [readTemplate, h]

/-- Base declarations that are not looked for in the output file are the same
before and after it was opened. -/
theorem readTemplate_of_fill (hadmits : fs.root.Admits location)
    (hother : ∀ path, config.baseTemplate = some path →
      (fs.fill location content).locate path ≠ .ok location)
    (hread : readTemplate config (fs.fill location content) = .ok template) :
    readTemplate config fs = .ok template := by
  cases htemplate : config.baseTemplate with
  | none =>
    rw [readTemplate, htemplate] at hread ⊢
    exact hread
  | some path =>
    rw [readTemplate_of_named htemplate, mapError_eq_ok_iff] at hread ⊢
    exact FileSystem.readText_of_readText_fill hadmits (hother path htemplate) hread

/-- The text is given when its base declarations can be read. -/
theorem emit_eq_fileText_iff {cwd : String} (hcwd : fs.currentDir = .ok cwd) :
    emit now config lib fs = .ok (fileText now config lib fs template) ↔
      readTemplate config fs = .ok template := by
  rw [emit_eq_map hcwd, map_eq_ok_iff]
  constructor
  · rintro ⟨template', hread, htext⟩
    rw [hread, fileText_inj.1 htext]
  · intro hread
    exact ⟨template, hread, rfl⟩

/-- **A file is written with the text that is given**, under a fixed time of
generation, unless its base declarations are looked for in the output file.
That file is open when they are read, and all they can be is the first line,
if it was too long for the buffer; the text is then given only if the file
held just that before. -/
theorem readText_output_of_process (htime : config.timestamp = some time)
    (h : process now config lib fs = (.ok (), fs')) :
    ∃ text, fs'.readText config.output = .ok text ∧
      ((∀ path, config.baseTemplate = some path →
          fs'.locate path ≠ fs'.locate config.output) →
        ∀ now', emit now' config lib fs = .ok text) ∧
      ∀ path, config.baseTemplate = some path →
        fs'.locate path = fs'.locate config.output →
          text = fileText now config lib fs (Output.reached (headingText now config)) ∧
          ∀ now', emit now' config lib fs = .ok text ↔
            fs.readText path = .ok (Output.reached (headingText now config)) := by
  obtain ⟨location, opened, template, hcreate, hdevice, hcwd, hread, rfl⟩ := process_eq_ok h
  have hadmits := (FileSystem.create_eq_ok hcreate).1
  have houtput : ∀ content, (fs.fill location content).locate config.output = .ok location :=
    FileSystem.locate_fill_of_create hcreate
  rw [houtput]
  refine ⟨fileText now config lib fs template,
    FileSystem.readText_fill_of_locate hadmits hdevice (houtput _), ?_, ?_⟩
  · intro hother now'
    rw [fileText_congr_now htime now now', emit_eq_fileText_iff hcwd]
    refine readTemplate_of_fill hadmits (fun path htemplate => ?_) hread
    rw [FileSystem.locate_fill_congr hadmits]
    exact hother path htemplate
  · intro path htemplate hsame
    rw [FileSystem.locate_fill_congr hadmits] at hsame
    -- the base declarations are read back from the open output
    have hback : template = Output.reached (headingText now config) := by
      rw [readTemplate_of_named htemplate, mapError_eq_ok_iff,
        FileSystem.readText_fill_of_locate hadmits hdevice hsame] at hread
      exact (Except.ok.inj hread).symm
    rw [← hback]
    refine ⟨rfl, fun now' => ?_⟩
    rw [fileText_congr_now htime now now', emit_eq_fileText_iff hcwd,
      readTemplate_of_named htemplate, mapError_eq_ok_iff]

/-! ## Base declarations beside the output file and in it -/

/-- A tree with base declarations beside the output file, and the same text in it. -/
def drafted : FileSystem :=
  ⟨.folder [("base.d.ts", .file "x".toUTF8), ("out.d.ts", .file "x".toUTF8)], []⟩

/-- The tree when the output file was opened again. -/
def redrafted : FileSystem := drafted.write ["out.d.ts"] ByteArray.empty

/-- Writes the output file of that tree with the base declarations at a path. -/
def redrafting (base : String) : Config :=
  ⟨"out.d.ts", .empty, .empty, some base, some "T"⟩

/-- Without classes nothing follows the base declarations and their line break. -/
theorem declarationPieces_empty (cwd : String) (config : Config) (root : String) :
    declarationPieces cwd config (.empty root) = [] := by
  have hsorted : (Library.empty root).sorted = [] := by
    have hnames : (Library.empty root).names = [] := rfl
    rw [Library.sorted, hnames, List.mergeSort_nil, List.filterMap_nil]
  rw [declarationPieces, hsorted]
  rfl

/-- A run on that tree, by what it reads of the base declarations and where that
leads. -/
theorem process_redrafting {base template : String} {left : FileSystem}
    (hread : readTemplate (redrafting base) redrafted = .ok template)
    (hrest : (Output.mk "out.d.ts" ["out.d.ts"] "// Generated declaration file at T\n"
      redrafted).writeAll [template, "\n"] = (.ok (), o))
    (hfinish : o.finish = (.ok (), left)) :
    process "" (redrafting base) (.empty "") drafted = (.ok (), left) := by
  have hcreate : Output.create drafted "out.d.ts" =
      .ok ⟨"out.d.ts", ["out.d.ts"], "", redrafted⟩ := rfl
  have hheading : (headingPiece "" (redrafting base)).render (redrafting base) =
      headingText "" (redrafting "") := rfl
  have hwrite : (Output.mk "out.d.ts" ["out.d.ts"] "" redrafted).write
      (headingText "" (redrafting "")) =
      (.ok (), ⟨"out.d.ts", ["out.d.ts"], "// Generated declaration file at T\n", redrafted⟩) := rfl
  have hcwd : readCurrentDir redrafted = .ok "/" := rfl
  have houtput : (redrafting base).output = "out.d.ts" := rfl
  have htexts : [Piece.template template, .blankLine].map (Piece.render (redrafting base)) =
      [template, "\n"] := rfl
  simp only [process, houtput, hcreate, emitTo, hcwd, hheading, hwrite, hread,
    declarationPieces_empty, htexts, hrest, hfinish, mapError_ok]

theorem process_beside :
    process "" (redrafting "base.d.ts") (.empty "") drafted =
      (.ok (), drafted.write ["out.d.ts"] "// Generated declaration file at T\nx\n".toUTF8) :=
  process_redrafting rfl rfl rfl

theorem readText_output_beside :
    ∃ fs', process "" (redrafting "base.d.ts") (.empty "") drafted = (.ok (), fs') ∧
      ∃ text, fs'.readText "out.d.ts" = .ok text ∧
        ∀ now, emit now (redrafting "base.d.ts") (.empty "") drafted = .ok text := by
  obtain ⟨text, hfile, hapart, -⟩ := readText_output_of_process rfl process_beside
  refine ⟨_, process_beside, text, hfile, hapart ?_⟩
  rintro path ⟨⟩
  decide

theorem process_onto :
    process "" (redrafting "out.d.ts") (.empty "") drafted =
      (.ok (), drafted.write ["out.d.ts"] "// Generated declaration file at T\n\n".toUTF8) :=
  process_redrafting rfl rfl rfl

/-- **Base declarations in the output file are lost.** Opening the file takes
them away before they are read, and the text that is given has them. -/
theorem readText_output_onto_ne :
    (redrafting "out.d.ts").timestamp = some "T" ∧
      ∃ fs' text, process "" (redrafting "out.d.ts") (.empty "") drafted = (.ok (), fs') ∧
        emit "" (redrafting "out.d.ts") (.empty "") drafted = .ok text ∧
        fs'.readText (redrafting "out.d.ts").output ≠ .ok text := by
  have hread : readTemplate (redrafting "out.d.ts") drafted = .ok "x" := rfl
  have hcwd : drafted.currentDir = .ok "/" := rfl
  refine ⟨rfl, _, _, process_onto, (emit_eq_fileText_iff hcwd).2 hread, ?_⟩
  have hgiven : fileText "" (redrafting "out.d.ts") (.empty "") drafted "x" =
      "// Generated declaration file at T\nx\n" := by
    rw [fileText, filePieces, declarationPieces_empty]
    rfl
  have hwritten : (drafted.write ["out.d.ts"]
      "// Generated declaration file at T\n\n".toUTF8).readText (redrafting "out.d.ts").output =
      .ok "// Generated declaration file at T\n\n" := rfl
  rw [hgiven, hwritten]
  decide

end Ambient
