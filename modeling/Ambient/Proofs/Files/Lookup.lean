import Ambient.Proofs.Files.Tree

/-!
# Paths in a tree where one file was written

A path is followed by the shape of the tree alone: where there are folders and
where something stands at all (`follow_cons`). Writing a file changes the shape
only at its own location, where something stands from then on
(`shape?_fill`). So paths lead to the same places as before, and beside them to
the file that is new (`follow_fill_eq_ok`, `follow_of_follow_fill`); the text
read at any place but that of the file is the same
(`readText_of_readText_fill`).
-/

namespace Ambient.FileSystem

variable {fs fs' : FileSystem} {location place start : Location} {content : ByteArray}
variable {path text : String} {s : List Char} {segments rest : List (List Char)}

/-! ## The shape of a tree -/

/-- Whether a folder stands at a location; none where nothing stands. -/
def shape? (fs : FileSystem) (location : Location) : Option Bool :=
  (fs.at? location).map Entry.isFolder

theorem shape?_eq_surface? (fs : FileSystem) (location : Location) :
    fs.shape? location = (fs.root.surface? location).map Entry.isFolder := by
  rw [shape?, at?, Entry.surface?, Option.map_map]
  congr 1
  funext e
  cases e <;> rfl

/-- Where a file can stand there is no folder. -/
theorem shape?_ne_of_admits (h : fs.root.Admits location) : fs.shape? location ≠ some true := by
  intro hshape
  obtain ⟨e, he, hfolder⟩ := Option.map_eq_some_iff.1 hshape
  cases e with
  | folder children => exact h.get?_ne_folder children he
  | _ => cases hfolder

/-- **What writing a file does to the shape.** Something that is no folder stands
at its location, and all else is as before. -/
theorem shape?_fill (h : fs.root.Admits location) (content : ByteArray) (other : Location) :
    (fs.fill location content).shape? other =
      if other = location then some false else fs.shape? other := by
  rw [fill]
  cases hdevice : fs.isDevice location with
  | true =>
    rw [if_pos rfl]
    split
    · rename_i hother
      subst hother
      rw [isDevice] at hdevice
      split at hdevice
      · rename_i hat
        rw [shape?, hat]
        rfl
      · rename_i hat
        rw [shape?, hat]
        rfl
      · cases hdevice
    · rfl
  | false =>
    rw [if_neg Bool.false_ne_true, shape?_eq_surface?, shape?_eq_surface?, write,
      Entry.surface?_set h rfl]
    split <;> rfl

theorem cwd_fill (fs : FileSystem) (location : Location) (content : ByteArray) :
    (fs.fill location content).cwd = fs.cwd := by
  rw [fill]
  split <;> rfl

/-! ## Following a path -/

/-- **One step along a path** asks for a folder, and for a name in it. -/
theorem follow_cons (fs : FileSystem) (start : Location) (s : List Char)
    (rest : List (List Char)) :
    fs.follow start (s :: rest) =
      if fs.shape? start = some true then
        if Path.isIdle s then fs.follow start rest
        else if s = ['.', '.'] then fs.follow start.dropLast rest
        else if (fs.shape? (start ++ [String.ofList s])).isSome then
          fs.follow (start ++ [String.ofList s]) rest
        else .error .notFound
      else .error (if (fs.shape? start).isSome then .notDirectory else .notFound) := by
  rw [follow, shape?, shape?, Option.isSome_map, Option.isSome_map]
  cases hat : fs.at? start with
  | none => rfl
  | some e =>
    cases e with
    | folder children =>
      have hchild : fs.at? (start ++ [String.ofList s]) = children.lookup (String.ofList s) :=
        Entry.get?_concat hat _
      rw [hchild]
      rfl
    | _ => rfl

/-- Trees of one shape are followed alike. -/
theorem follow_congr (h : ∀ location, fs.shape? location = fs'.shape? location)
    (start : Location) (segments : List (List Char)) :
    fs.follow start segments = fs'.follow start segments := by
  induction segments generalizing start with
  | nil => rfl
  | cons s rest ih => simp only [follow_cons, h, ih]

theorem follow_append (fs : FileSystem) (start : Location) (segments rest : List (List Char)) :
    fs.follow start (segments ++ rest) =
      fs.follow start segments >>= fun place => fs.follow place rest := by
  induction segments generalizing start with
  | nil => rfl
  | cons s segments ih =>
    rw [List.cons_append, follow_cons, follow_cons]
    simp only [ih]
    split
    · split
      · rfl
      · split
        · rfl
        · split <;> rfl
    · rfl

/-- What a step along a path can do: stay, climb, or go down to a name that
something bears. Each needs a folder to step from. -/
inductive Step (fs : FileSystem) (start : Location) (s : List Char) : Location → Prop
  | stay (hfolder : fs.shape? start = some true) (hidle : Path.isIdle s) : Step fs start s start
  | climb (hfolder : fs.shape? start = some true) (hidle : ¬ Path.isIdle s)
      (hup : s = ['.', '.']) : Step fs start s start.dropLast
  | descend (hfolder : fs.shape? start = some true) (hidle : ¬ Path.isIdle s)
      (hup : s ≠ ['.', '.']) (hsome : (fs.shape? (start ++ [String.ofList s])).isSome) :
      Step fs start s (start ++ [String.ofList s])

theorem follow_cons_eq_ok_iff :
    fs.follow start (s :: rest) = .ok place ↔
      ∃ next, fs.Step start s next ∧ fs.follow next rest = .ok place := by
  rw [follow_cons]
  constructor
  · intro h
    split at h
    · rename_i hfolder
      split at h
      · rename_i hidle
        exact ⟨_, .stay hfolder hidle, h⟩
      · rename_i hidle
        split at h
        · rename_i hup
          exact ⟨_, .climb hfolder hidle hup, h⟩
        · rename_i hup
          split at h
          · rename_i hsome
            exact ⟨_, .descend hfolder hidle hup hsome, h⟩
          · cases h
    · cases h
  · rintro ⟨next, hstep, h⟩
    cases hstep with
    | stay hfolder hidle => rwa [if_pos hfolder, if_pos hidle]
    | climb hfolder hidle hup => rwa [if_pos hfolder, if_neg hidle, if_pos hup]
    | descend hfolder hidle hup hsome =>
      rwa [if_pos hfolder, if_neg hidle, if_neg hup, if_pos hsome]

/-! ## Writing a file on the way -/

/-- A folder is no place of the file, so it is one before and after. -/
theorem shape?_fill_eq_folder_iff (h : fs.root.Admits location) :
    (fs.fill location content).shape? start = some true ↔ fs.shape? start = some true := by
  rw [shape?_fill h]
  split
  · rename_i heq
    subst heq
    exact iff_of_false (by simp) (shape?_ne_of_admits h)
  · rfl

theorem currentDir_eq (fs : FileSystem) :
    fs.currentDir =
      if fs.shape? fs.cwd = some true then .ok fs.workingDirectory else .error .notFound := by
  rw [currentDir, shape?]
  cases fs.at? fs.cwd with
  | none => rfl
  | some e => cases e <;> rfl

theorem currentDir_eq_ok_iff {cwd : String} :
    fs.currentDir = .ok cwd ↔ fs.shape? fs.cwd = some true ∧ cwd = fs.workingDirectory := by
  rw [currentDir_eq]
  split
  · rename_i hfolder
    simp [hfolder, eq_comm]
  · rename_i hfolder
    simp [hfolder]

/-- The working directory is where it was, or was removed before. -/
theorem currentDir_fill (h : fs.root.Admits location) (content : ByteArray) :
    (fs.fill location content).currentDir = fs.currentDir := by
  have hcwd := cwd_fill fs location content
  simp only [currentDir_eq, workingDirectory, hcwd, shape?_fill_eq_folder_iff h]

/-- A step can still be taken when the file is written. -/
theorem Step.fill (hstep : fs.Step start s place) (h : fs.root.Admits location) :
    (fs.fill location content).Step start s place := by
  cases hstep with
  | stay hfolder hidle => exact .stay ((shape?_fill_eq_folder_iff h).2 hfolder) hidle
  | climb hfolder hidle hup => exact .climb ((shape?_fill_eq_folder_iff h).2 hfolder) hidle hup
  | descend hfolder hidle hup hsome =>
    refine .descend ((shape?_fill_eq_folder_iff h).2 hfolder) hidle hup ?_
    rw [shape?_fill h]
    split
    · rfl
    · exact hsome

/-- A step that can be taken then could be taken before, unless it goes down to
the file and that is new. -/
theorem Step.of_fill (h : fs.root.Admits location)
    (hstep : (fs.fill location content).Step start s place) :
    fs.Step start s place ∨ (place = location ∧ fs.shape? location = none) := by
  cases hstep with
  | stay hfolder hidle => exact .inl (.stay ((shape?_fill_eq_folder_iff h).1 hfolder) hidle)
  | climb hfolder hidle hup =>
    exact .inl (.climb ((shape?_fill_eq_folder_iff h).1 hfolder) hidle hup)
  | descend hfolder hidle hup hsome =>
    have hfolder' := (shape?_fill_eq_folder_iff h).1 hfolder
    rw [shape?_fill h] at hsome
    split at hsome
    · rename_i heq
      rw [heq]
      cases hshape : fs.shape? location with
      | none => exact .inr ⟨rfl, rfl⟩
      | some found =>
        exact .inl (heq ▸ .descend hfolder' hidle hup (by rw [heq, hshape]; rfl))
    · exact .inl (.descend hfolder' hidle hup hsome)

/-- No step leads on from the file. -/
theorem not_step_fill (h : fs.root.Admits location) :
    ¬ (fs.fill location content).Step location s place := by
  have hfile : (fs.fill location content).shape? location ≠ some true := by
    rw [shape?_fill h, if_pos rfl]
    simp
  intro hstep
  cases hstep with
  | stay hfolder | climb hfolder | descend hfolder => exact hfile hfolder

/-- **A path that led somewhere leads there** when the file is written. -/
theorem follow_fill_eq_ok (h : fs.root.Admits location)
    (hplace : fs.follow start segments = .ok place) :
    (fs.fill location content).follow start segments = .ok place := by
  induction segments generalizing start with
  | nil => exact hplace
  | cons s rest ih =>
    obtain ⟨next, hstep, hrest⟩ := follow_cons_eq_ok_iff.1 hplace
    exact follow_cons_eq_ok_iff.2 ⟨next, hstep.fill h, ih hrest⟩

/-- **And a path that leads somewhere then led there before**, unless it leads
to the file and that is new. -/
theorem follow_of_follow_fill (h : fs.root.Admits location)
    (hplace : (fs.fill location content).follow start segments = .ok place) :
    fs.follow start segments = .ok place ∨ (place = location ∧ fs.shape? location = none) := by
  induction segments generalizing start with
  | nil => exact .inl hplace
  | cons s rest ih =>
    obtain ⟨next, hstep, hrest⟩ := follow_cons_eq_ok_iff.1 hplace
    rcases hstep.of_fill h with hold | ⟨rfl, hnew⟩
    · exact (ih hrest).imp_left fun hrest => follow_cons_eq_ok_iff.2 ⟨next, hold, hrest⟩
    · -- the path ends at the new file
      cases rest with
      | nil => exact .inr ⟨(Except.ok.inj hrest).symm, hnew⟩
      | cons s' rest =>
        obtain ⟨_, hstep', -⟩ := follow_cons_eq_ok_iff.1 hrest
        exact absurd hstep' (not_step_fill h)

/-! ## Places and texts -/

theorem begin_fill (fs : FileSystem) (location : Location) (content : ByteArray) (path : String) :
    (fs.fill location content).begin path = fs.begin path := by
  rw [begin, begin, cwd_fill]

theorem locate_eq_ok_iff :
    fs.locate path = .ok place ↔
      ∃ start segments, fs.begin path = .ok (start, segments) ∧
        fs.follow start segments = .ok place := by
  rw [locate, bind_eq_ok_iff]
  constructor
  · rintro ⟨⟨start, segments⟩, hbegin, hfollow⟩
    exact ⟨start, segments, hbegin, hfollow⟩
  · rintro ⟨start, segments, hbegin, hfollow⟩
    exact ⟨(start, segments), hbegin, hfollow⟩

theorem locate_of_locate_fill (h : fs.root.Admits location)
    (hplace : (fs.fill location content).locate path = .ok place) :
    fs.locate path = .ok place ∨ (place = location ∧ fs.shape? location = none) := by
  obtain ⟨start, segments, hbegin, hfollow⟩ := locate_eq_ok_iff.1 hplace
  rw [begin_fill] at hbegin
  exact (follow_of_follow_fill h hfollow).imp_left fun hfollow =>
    locate_eq_ok_iff.2 ⟨start, segments, hbegin, hfollow⟩

/-- What is written to the file does not matter for where paths lead. -/
theorem locate_fill_congr (h : fs.root.Admits location) (content content' : ByteArray)
    (path : String) :
    (fs.fill location content).locate path = (fs.fill location content').locate path := by
  have hshape : ∀ place, (fs.fill location content).shape? place =
      (fs.fill location content').shape? place := by
    intro place
    rw [shape?_fill h, shape?_fill h]
  rw [locate, locate, begin_fill, begin_fill]
  simp only [follow_congr hshape]

/-- **A path that is opened leads to the file** that is written. -/
theorem locate_fill_of_create (hopen : fs.create path = .ok (location, fs'))
    (content : ByteArray) : (fs.fill location content).locate path = .ok location := by
  have hadmits := (create_eq_ok hopen).1
  obtain ⟨start, before, last, parent, children, hbegin, hidle, hup, hfollow, hparent, -,
    rfl, -⟩ := exists_steps_of_create hopen
  have hfolder : fs.shape? parent = some true := by
    rw [shape?, hparent]
    rfl
  have hsome : ((fs.fill (parent ++ [String.ofList last]) content).shape?
      (parent ++ [String.ofList last])).isSome := by
    rw [shape?_fill hadmits, if_pos rfl]
    rfl
  have hstep : (fs.fill (parent ++ [String.ofList last]) content).Step parent last _ :=
    .descend ((shape?_fill_eq_folder_iff hadmits).2 hfolder) hidle hup hsome
  rw [locate_eq_ok_iff]
  refine ⟨start, before ++ [last], (begin_fill ..).trans hbegin, ?_⟩
  rw [follow_append, follow_fill_eq_ok hadmits hfollow]
  exact follow_cons_eq_ok_iff.2 ⟨_, hstep, rfl⟩

/-- The text of an entry: that of a file, none of a device. A folder cannot be
read. -/
def textOf? : Entry → Option String
  | .file content => String.fromUTF8? content
  | .folder _ => none
  | .nullDevice | .fullDevice => some ""

theorem isFolder_of_textOf? {e : Entry} (h : textOf? e = some text) : e.isFolder = false := by
  cases e with
  | folder children => cases h
  | _ => rfl

theorem file?_eq_some_iff {e : Entry} :
    fs.file? place = some e ↔ fs.at? place = some e ∧ e.isFolder = false := by
  rw [file?, Entry.file?, Option.filter_eq_some_iff, at?, Bool.not_eq_true']

theorem entry_eq_ok_iff {e : Entry} :
    fs.entry path = .ok e ↔ ∃ place, fs.locate path = .ok place ∧ fs.at? place = some e := by
  rw [entry, bind_eq_ok_iff]
  refine exists_congr fun place => and_congr_right fun _ => ?_
  cases fs.at? place <;> simp

/-- **What reading a path gives** is the text of the file or device that it leads
to. -/
theorem readText_eq_ok_iff :
    fs.readText path = .ok text ↔
      ∃ place e, fs.locate path = .ok place ∧ fs.file? place = some e ∧
        textOf? e = some text := by
  have hread : fs.readText path = .ok text ↔
      ∃ e, fs.entry path = .ok e ∧ textOf? e = some text := by
    rw [readText, bind_eq_ok_iff]
    refine exists_congr fun e => and_congr_right fun _ => ?_
    cases e with
    | file content => cases hdecode : String.fromUTF8? content <;> simp [textOf?, hdecode]
    | _ => simp [textOf?]
  rw [hread]
  constructor
  · rintro ⟨e, hentry, htext⟩
    obtain ⟨place, hplace, hat⟩ := entry_eq_ok_iff.1 hentry
    exact ⟨place, e, hplace, file?_eq_some_iff.2 ⟨hat, isFolder_of_textOf? htext⟩, htext⟩
  · rintro ⟨place, e, hplace, hfile, htext⟩
    exact ⟨e, entry_eq_ok_iff.2 ⟨place, hplace, (file?_eq_some_iff.1 hfile).1⟩, htext⟩

theorem fromUTF8?_toUTF8 (text : String) : String.fromUTF8? text.toUTF8 = some text := by
  have hvalid : text.toUTF8.IsValidUTF8 := text.isValidUTF8
  rw [String.fromUTF8?, dif_pos hvalid]
  rfl

/-- **The file reads as what was written to it.** -/
theorem readText_fill_of_locate (h : fs.root.Admits location)
    (hdevice : fs.isDevice location = false)
    (hplace : (fs.fill location text.toUTF8).locate path = .ok location) :
    (fs.fill location text.toUTF8).readText path = .ok text := by
  refine readText_eq_ok_iff.2 ⟨location, .file text.toUTF8, hplace, ?_, fromUTF8?_toUTF8 text⟩
  rw [file?_fill h, if_pos ⟨rfl, hdevice⟩]

/-- **Other files read as before.** A path that does not lead to the file gives
the text that it gave before. -/
theorem readText_of_readText_fill (h : fs.root.Admits location)
    (hplace : (fs.fill location content).locate path ≠ .ok location)
    (hread : (fs.fill location content).readText path = .ok text) :
    fs.readText path = .ok text := by
  obtain ⟨place, e, hlocate, hfile, htext⟩ := readText_eq_ok_iff.1 hread
  have hne : place ≠ location := by
    rintro rfl
    exact hplace hlocate
  have hlocate' : fs.locate path = .ok place :=
    (locate_of_locate_fill h hlocate).resolve_right fun hnew => hne hnew.1
  rw [file?_fill h, if_neg fun heq => hne heq.1] at hfile
  exact readText_eq_ok_iff.2 ⟨place, e, hlocate', hfile, htext⟩

end Ambient.FileSystem
