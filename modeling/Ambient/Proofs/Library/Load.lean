import Mathlib.Data.List.Forall2
import Ambient.Library.Load
import Ambient.Proofs.Files.Visit
import Ambient.Proofs.Library.Insertion

/-!
# The library of a directory

Loading goes over the record files of a tree in the order of the walk and adds
the record of each to the library. It ends at the first file whose record is not
added (`foldlM_eq_error_iff`), and gives the library of all the records
when there is none (`foldlM_loadFile_eq_ok_iff`). What a directory gives is
therefore said by the files in it alone, and a failure by the file that it is
about and those before it (`load_folder`).
-/

namespace Ambient

variable {fs : FileSystem} {directory path : String} {content : ByteArray} {c : ClassRecord}
variable {children : List (String × Entry)} {names : List String}

/-- The location ends with a name in `.json`, and something stands before that. -/
def IsRecordLocation (location : Location) : Prop :=
  ∃ folders stem, stem ≠ "" ∧ location = folders ++ [stem ++ ".json"]

/-- The bytes are a text, and the text is the record. -/
def Holds (content : ByteArray) (c : ClassRecord) : Prop :=
  ∃ text, String.fromUTF8? content = some text ∧ Json.decode classRecord text = .ok c

/-- Why the file at a path adds nothing to a library that has classes of some
names. -/
inductive Refused (names : List String) (path : String) (content : ByteArray) : LoadError → Prop
  | notText (hbytes : String.fromUTF8? content = none) :
      Refused names path content (.read path .notText)
  | malformed {text : String} {fault : Json.Fault} (htext : String.fromUTF8? content = some text)
      (hdecode : Json.decode classRecord text = .error fault) :
      Refused names path content (.decode path fault)
  | unnamed {c : ClassRecord} (hholds : Holds content c) (hname : c.name = "") :
      Refused names path content (.insert .missingClassName)
  | taken {c : ClassRecord} (hholds : Holds content c) (hname : c.name ∈ names) :
      Refused names path content (.insert (.duplicateClass c.name))

/-! ## The record files of a tree -/

theorem pathTo_ne_empty (hdirectory : directory ≠ "") {location : Location}
    (hnames : ∀ name ∈ location, isFileName name) : Entry.pathTo directory location ≠ "" := by
  induction location generalizing directory with
  | nil => exact hdirectory
  | cons name rest ih =>
    obtain ⟨hname, hrest⟩ := List.forall_mem_cons.1 hnames
    exact ih (Path.join_ne_empty hname hdirectory) hrest

/-- Below a directory the path of a file tells whether its name is that of a
record. -/
theorem isRecordFile_pathTo_iff (hdirectory : directory ≠ "") {location : Location}
    (hnames : ∀ name ∈ location, isFileName name) (hbelow : location ≠ []) :
    isRecordFile (Entry.pathTo directory location) ↔ IsRecordLocation location := by
  obtain ⟨folders, name, rfl⟩ : ∃ folders name, location = folders ++ [name] :=
    ⟨_, _, (List.dropLast_append_getLast hbelow).symm⟩
  have hname : isFileName name := hnames name (by simp)
  have hfolders : ∀ name ∈ folders, isFileName name := fun other hother =>
    hnames other (List.mem_append_left _ hother)
  rw [Entry.pathTo_concat, isRecordFile, decide_eq_true_iff,
    Path.extension?_join_eq_json_iff hname (pathTo_ne_empty hdirectory hfolders)]
  constructor
  · rintro ⟨stem, hstem, rfl⟩
    exact ⟨folders, stem, hstem, rfl⟩
  · rintro ⟨folders', stem, hstem, heq⟩
    have hlast : [name] = [stem ++ ".json"] := (List.append_inj' heq rfl).2
    exact ⟨stem, hstem, List.head_eq_of_cons_eq hlast⟩

/-- **The files that are loaded** are those with the name of a record, in the
order of the walk. -/
theorem exists_visited_records (hdirectory : directory ≠ "")
    (htree : (Entry.folder children).IsTree) :
    ∃ files, (Entry.folder children).Visited IsRecordLocation files ∧
      (((Entry.folder children).files directory).filter fun file => isRecordFile file.1) =
        files.map fun file => (Entry.pathTo directory file.1, file.2) := by
  obtain ⟨files, hvisited, hfiles⟩ := Entry.exists_visited htree
  have hrecord : ∀ file ∈ files,
      isRecordFile (Entry.pathTo directory file.1) ↔ IsRecordLocation file.1 := by
    intro file hfile
    have hfound := ((hvisited.mem_iff file.1 file.2).1 hfile).1
    refine isRecordFile_pathTo_iff hdirectory (Entry.isFileName_of_get? htree hfound) ?_
    rintro hnil
    rw [hnil] at hfound
    cases hfound
  refine ⟨files.filter fun file => isRecordFile (Entry.pathTo directory file.1), ?_, ?_⟩
  · simpa using hvisited.filter hrecord
  · rw [hfiles, List.filter_map]
    rfl

/-! ## One file and many -/

namespace Library

variable {lib lib' : Library} {err : LoadError} {file : String × ByteArray}
variable {files : List (String × ByteArray)}

/-- Loading a file reads it, decodes what was read and adds what was decoded. -/
theorem loadFile_eq (lib : Library) (path : String) (content : ByteArray) :
    lib.loadFile (path, content) =
      match String.fromUTF8? content with
      | none => .error (.read path .notText)
      | some text =>
        match Json.decode classRecord text with
        | .error fault => .error (.decode path fault)
        | .ok c => (lib.insert c).mapError .insert := by
  rw [loadFile]
  cases String.fromUTF8? content with
  | none => rfl
  | some text =>
    change (Json.decode classRecord text).mapError (LoadError.decode path) >>=
      (fun c => (lib.insert c).mapError .insert) = _
    cases hdecode : Json.decode classRecord text <;> simp only [hdecode] <;> rfl

/-- **What one file adds** is its record. -/
theorem loadFile_eq_ok_iff :
    lib.loadFile (path, content) = .ok lib' ↔ ∃ c, Holds content c ∧ lib.insert c = .ok lib' := by
  rw [loadFile_eq]
  constructor
  · intro h
    split at h
    · cases h
    · rename_i text htext
      split at h
      · cases h
      · rename_i c hdecode
        exact ⟨c, ⟨text, htext, hdecode⟩, mapError_eq_ok_iff.1 h⟩
  · rintro ⟨c, ⟨text, htext, hdecode⟩, hinsert⟩
    simp only [htext, hdecode, hinsert, mapError_ok]

/-- **Why one file adds nothing.** -/
theorem loadFile_eq_error_iff :
    lib.loadFile (path, content) = .error err ↔ Refused lib.names path content err := by
  rw [loadFile_eq]
  constructor
  · intro h
    split at h
    · rename_i hbytes
      cases h
      exact .notText hbytes
    · rename_i text htext
      split at h
      · rename_i fault hdecode
        cases h
        exact .malformed htext hdecode
      · rename_i c hdecode
        obtain ⟨e, hinsert, rfl⟩ := mapError_eq_error_iff.1 h
        obtain ⟨hname, rfl⟩ | ⟨htaken, rfl⟩ := insert_eq_error_iff.1 hinsert
        · exact .unnamed ⟨text, htext, hdecode⟩ hname
        · exact .taken ⟨text, htext, hdecode⟩ htaken
  · intro h
    cases h with
    | notText hbytes => simp only [hbytes]
    | malformed htext hdecode => simp only [htext, hdecode]
    | unnamed hholds hname =>
      obtain ⟨text, htext, hdecode⟩ := hholds
      simp only [htext, hdecode, insert_eq_error_iff.2 (.inl ⟨hname, rfl⟩), mapError_error]
    | taken hholds htaken =>
      obtain ⟨text, htext, hdecode⟩ := hholds
      simp only [htext, hdecode, insert_eq_error_iff.2 (.inr ⟨htaken, rfl⟩), mapError_error]

/-- The record of each file, added in the order of the files. -/
theorem foldlM_loadFile_eq_ok_iff :
    files.foldlM loadFile lib = .ok lib' ↔
      ∃ cs, List.Forall₂ (fun file c => Holds file.2 c) files cs ∧
        cs.foldlM insert lib = .ok lib' := by
  induction files generalizing lib with
  | nil =>
    constructor
    · intro h
      cases h
      exact ⟨[], .nil, rfl⟩
    · rintro ⟨cs, hcs, h⟩
      cases hcs
      cases h
      rfl
  | cons file files ih =>
    rw [List.foldlM_cons, bind_eq_ok_iff]
    constructor
    · rintro ⟨lib₁, hfile, hfiles⟩
      obtain ⟨c, hholds, hinsert⟩ := loadFile_eq_ok_iff.1 hfile
      obtain ⟨cs, hcs, h⟩ := ih.1 hfiles
      refine ⟨c :: cs, .cons hholds hcs, ?_⟩
      rw [List.foldlM_cons, hinsert]
      exact h
    · rintro ⟨_, hcs, h⟩
      cases hcs with
      | cons hholds hcs =>
        rw [List.foldlM_cons] at h
        obtain ⟨lib₁, hinsert, h⟩ := bind_eq_ok_iff.1 h
        exact ⟨lib₁, loadFile_eq_ok_iff.2 ⟨_, hholds, hinsert⟩, ih.2 ⟨_, hcs, h⟩⟩

theorem load_eq_foldlM {e : Entry} (hentry : fs.entry directory = .ok e) :
    load fs directory =
      ((e.files directory).filter fun file => isRecordFile file.1).foldlM loadFile
        (empty directory) := by
  rw [load, hentry]

theorem names_of_entries {cs : List ClassRecord} (h : lib.classes.entries = cs.map entryOf) :
    lib.names = cs.map (·.name) := by
  rw [names, Table.keys, h, List.map_map]
  rfl

/-- **What loading a directory gives.** The record files of its tree are read in
the order of the walk. When each holds a record, and the records have names of
their own, the library has these records in this order; if not, the failure is
that of the first file that adds nothing to the records of those before it,
whatever stands in the files behind. -/
theorem load_folder (hentry : fs.entry directory = .ok (.folder children))
    (htree : (Entry.folder children).IsTree) :
    ∃ files,
      (∀ files', (Entry.folder children).Visited IsRecordLocation files' ↔ files' = files) ∧
      (∀ file ∈ files, fs.entry (Entry.pathTo directory file.1) = .ok (.file file.2)) ∧
      (∀ lib, load fs directory = .ok lib ↔
        ∃ cs, List.Forall₂ (fun file c => Holds file.2 c) files cs ∧
          "" ∉ cs.map (·.name) ∧ (cs.map (·.name)).Nodup ∧
          lib.root = directory ∧ lib.classes.entries = cs.map entryOf) ∧
      ∀ err, load fs directory = .error err ↔
        ∃ before file after cs, files = before ++ file :: after ∧
          List.Forall₂ (fun file c => Holds file.2 c) before cs ∧
          "" ∉ cs.map (·.name) ∧ (cs.map (·.name)).Nodup ∧
          Refused (cs.map (·.name)) (Entry.pathTo directory file.1) file.2 err := by
  have hdirectory : directory ≠ "" := by
    rintro rfl
    cases hentry
  obtain ⟨files, hvisited, hfiles⟩ := exists_visited_records hdirectory htree
  have hload := load_eq_foldlM hentry
  rw [hfiles] at hload
  -- the files by their locations hold what they hold by their paths
  have hholds {held : List (Location × ByteArray)} {cs : List ClassRecord} :
      List.Forall₂ (fun file c => Holds file.2 c)
        (held.map fun file => (Entry.pathTo directory file.1, file.2)) cs ↔
      List.Forall₂ (fun file c => Holds file.2 c) held cs := List.forall₂_map_left_iff
  refine ⟨files, fun files' => ⟨fun h => h.unique hvisited, fun h => h ▸ hvisited⟩, ?_, ?_, ?_⟩
  · rintro ⟨location, content⟩ hfile
    exact FileSystem.entry_pathTo hentry htree ((hvisited.mem_iff location content).1 hfile).1
  · intro lib
    rw [hload, foldlM_loadFile_eq_ok_iff]
    refine exists_congr fun cs => and_congr hholds ?_
    exact ofRecords_eq_ok_iff
  · intro err
    rw [hload, foldlM_eq_error_iff]
    constructor
    · rintro ⟨_, _, _, lib, hcut, hbefore, herr⟩
      obtain ⟨before, rest, rfl, rfl, hrest⟩ := List.map_eq_append_iff.1 hcut
      obtain ⟨file, after, rfl, rfl, rfl⟩ := List.map_eq_cons_iff.1 hrest
      obtain ⟨cs, hcs, hlib⟩ := foldlM_loadFile_eq_ok_iff.1 hbefore
      obtain ⟨hnamed, hnodup, -, hentries⟩ := ofRecords_eq_ok_iff.1 hlib
      refine ⟨before, file, after, cs, rfl, hholds.1 hcs, hnamed, hnodup, ?_⟩
      rw [← names_of_entries hentries]
      exact loadFile_eq_error_iff.1 herr
    · rintro ⟨before, file, after, cs, rfl, hcs, hnamed, hnodup, hrefused⟩
      obtain ⟨lib, hlib⟩ : ∃ lib, ofRecords directory cs = .ok lib :=
        exists_ofRecords_eq_ok hnamed hnodup
      obtain ⟨-, -, -, hentries⟩ := ofRecords_eq_ok_iff.1 hlib
      rw [← names_of_entries hentries] at hrefused
      rw [List.map_append, List.map_cons]
      exact ⟨_, _, _, lib, rfl, foldlM_loadFile_eq_ok_iff.2 ⟨cs, hholds.2 hcs, hlib⟩,
        loadFile_eq_error_iff.2 hrefused⟩

/-! ## Two files that hold no record -/

/-- What stands in a folder where one file is no text and another, of a name
further on, is no record. -/
def damagedChildren : List (String × Entry) :=
  [("b.json", .file "x".toUTF8), (".json", .file "".toUTF8),
    ("a", .folder [("B.json", .file ⟨#[255]⟩)])]

/-- A tree with that folder. -/
def damaged : FileSystem := ⟨.folder [("meta", .folder damagedChildren)], []⟩

theorem isTree_damagedChildren : (Entry.folder damagedChildren).IsTree := by
  have hfile (content : ByteArray) : (Entry.file content).IsTree := by
    rintro (_ | _) _ h <;> cases h
  simp only [Entry.isTree_folder_iff, damagedChildren, List.forall_mem_cons, hfile,
    List.not_mem_nil, false_implies, implies_true, and_true, List.map_cons, List.map_nil]
  decide

/-- Where its files are. -/
theorem location_of_damaged {location : Location} {content : ByteArray}
    (h : (Entry.folder damagedChildren).get? location = some (.file content)) :
    location = ["b.json"] ∨ location = [".json"] ∨ location = ["a", "B.json"] := by
  have hfile {content : ByteArray} {rest : Location} {found : Entry}
      (h : (Entry.file content).get? rest = some found) : rest = [] := by
    cases rest with
    | nil => rfl
    | cons => cases h
  cases location with
  | nil => cases h
  | cons name rest =>
    obtain ⟨e, he, hrest⟩ := Option.bind_eq_some_iff.1 h
    have hmem : (name, e) ∈ damagedChildren := mem_of_lookup_eq_some he
    simp only [damagedChildren, List.mem_cons, Prod.mk.injEq, List.not_mem_nil, or_false] at hmem
    obtain ⟨rfl, rfl⟩ | ⟨rfl, rfl⟩ | ⟨rfl, rfl⟩ := hmem
    · exact .inl (by rw [hfile hrest])
    · exact .inr (.inl (by rw [hfile hrest]))
    · cases rest with
      | nil => cases hrest
      | cons name rest =>
        obtain ⟨e, he, hrest⟩ := Option.bind_eq_some_iff.1 hrest
        have hmem : (name, e) ∈ [("B.json", Entry.file ⟨#[255]⟩)] := mem_of_lookup_eq_some he
        obtain ⟨rfl, rfl⟩ := Prod.mk.inj (List.mem_singleton.1 hmem)
        exact .inr (.inr (by rw [hfile hrest]))

/-- The file that is named is the first in the walk, not the first in the folder. -/
theorem load_damaged :
    load damaged "meta" = .error (.read "meta/a/B.json" .notText) := by
  have hentry : damaged.entry "meta" = .ok (.folder damagedChildren) := rfl
  obtain ⟨files, hfiles, -, -, herror⟩ := load_folder hentry isTree_damagedChildren
  have hvisited := (hfiles files).2 rfl
  have hmem : (["a", "B.json"], ⟨#[255]⟩) ∈ files :=
    (hvisited.mem_iff _ _).2 ⟨rfl, ["a"], "B", by decide, rfl⟩
  obtain ⟨before, after, hcut⟩ := List.append_of_mem hmem
  -- no record file comes before it
  have hbefore : before = [] := by
    refine List.eq_nil_iff_forall_not_mem.2 fun file hfile => ?_
    have hlt : file.1 < ["a", "B.json"] := by
      have hascending := hvisited.ascending
      rw [hcut, List.pairwise_append] at hascending
      exact hascending.2.2 file hfile _ List.mem_cons_self
    have hfound := (hvisited.mem_iff file.1 file.2).1 (hcut ▸ List.mem_append_left _ hfile)
    obtain ⟨hget, folders, stem, hstem, hrecord⟩ := hfound
    obtain h | h | h := location_of_damaged hget
    · rw [h] at hlt
      exact absurd hlt (by decide)
    · rw [h] at hrecord
      have hlast : stem ++ ".json" = ".json" := by
        have hlast := congrArg List.getLast? hrecord
        rw [List.getLast?_concat] at hlast
        exact (Option.some.inj hlast).symm
      have hnil : stem.toList = [] := by simpa using congrArg String.toList hlast
      exact hstem (String.toList_inj.1 hnil)
    · rw [h] at hlt
      exact lt_irrefl _ hlt
  rw [hbefore, List.nil_append] at hcut
  exact (herror _).2 ⟨[], _, after, [], hcut, .nil, List.not_mem_nil, List.nodup_nil,
    .notText (by decide)⟩

end Library

end Ambient
