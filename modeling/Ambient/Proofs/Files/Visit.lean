import Mathlib.Data.List.Lex
import Mathlib.Data.String.Basic
import Ambient.Metadata.Name
import Ambient.Proofs.Files.Lookup

/-!
# Walking a directory

The files of a tree are listed depth first, the entries of a folder by their
names. Said without the recursion, every file of the tree is listed once, and
the locations ascend name by name (`Visited`), which leaves one list
(`Visited.unique`). The list that the walk gives is that one, with each location
written as a path from where the walk began (`exists_visited`), and that path
leads to the file (`entry_pathTo`).
-/

namespace Ambient

/-- A name that a file or a folder can bear. -/
def isFileName (name : String) : Bool :=
  name ≠ "" && name ≠ "." && name ≠ ".." && name.toList.all fun c => c ≠ '/' && c ≠ '\x00'

namespace Entry

variable {e : Entry} {children : List (String × Entry)} {location : Location}
variable {content : ByteArray} {path : String} {kept : Location → Prop}
variable {files files' : List (Location × ByteArray)}

/-- In every folder at or below the entry each name is one that an entry can
bear, and none stands twice. -/
def IsTree (e : Entry) : Prop :=
  ∀ location children, e.get? location = some (.folder children) →
    (children.map Prod.fst).Nodup ∧ ∀ child ∈ children, isFileName child.1

/-- What is shown of a folder from what is shown of each entry in it holds of
every entry. -/
@[elab_as_elim]
theorem induction {motive : Entry → Prop} (file : ∀ content, motive (.file content))
    (folder : ∀ children, (∀ child ∈ children, motive child.2) → motive (.folder children))
    (nullDevice : motive .nullDevice) (fullDevice : motive .fullDevice) : ∀ e, motive e
  | .file content => file content
  | .folder children => folder children fun child _ =>
      induction file folder nullDevice fullDevice child.2
  | .nullDevice => nullDevice
  | .fullDevice => fullDevice
termination_by e => sizeOf e
decreasing_by
  obtain ⟨name, below⟩ := child
  have hchild : sizeOf (name, below) < sizeOf children := List.sizeOf_lt_of_mem ‹_›
  simp only [Prod.mk.sizeOf_spec] at hchild
  simp only [Entry.folder.sizeOf_spec]
  omega

/-- A location below a folder starts with the name of an entry. -/
theorem get?_folder_cons (children : List (String × Entry)) (name : String) (rest : Location) :
    (folder children).get? (name :: rest) = (children.lookup name).bind (·.get? rest) := rfl

theorem get?_folder_cons_of_mem (hnodup : (children.map Prod.fst).Nodup)
    {child : String × Entry} (hchild : child ∈ children) (rest : Location) :
    (folder children).get? (child.1 :: rest) = child.2.get? rest := by
  have hlookup : children.lookup child.1 = some child.2 := lookup_eq_some_of_mem hnodup hchild
  rw [get?_folder_cons, hlookup, Option.bind_some]

theorem isTree_folder_iff :
    (folder children).IsTree ↔ (children.map Prod.fst).Nodup ∧
      ∀ child ∈ children, isFileName child.1 ∧ child.2.IsTree := by
  constructor
  · intro h
    obtain ⟨hnodup, hnames⟩ := h [] children rfl
    refine ⟨hnodup, fun child hchild => ⟨hnames child hchild, fun location below hbelow => ?_⟩⟩
    rw [← get?_folder_cons_of_mem hnodup hchild] at hbelow
    exact h (child.1 :: location) below hbelow
  · rintro ⟨hnodup, hchildren⟩ location below hbelow
    cases location with
    | nil =>
      cases hbelow
      exact ⟨hnodup, fun child hchild => (hchildren child hchild).1⟩
    | cons name rest =>
      obtain ⟨e, hlookup, hrest⟩ := Option.bind_eq_some_iff.1 hbelow
      exact (hchildren (name, e) (mem_of_lookup_eq_some hlookup)).2 rest below hrest

/-- What stands below a tree stands below an entry of a folder, which is a tree
as well. -/
theorem exists_child_of_get? {name : String} {rest : Location} {found : Entry} (htree : e.IsTree)
    (hfound : e.get? (name :: rest) = some found) :
    ∃ children below, e = .folder children ∧ children.lookup name = some below ∧
      isFileName name ∧ below.IsTree ∧ below.get? rest = some found := by
  obtain ⟨below, hchild, hrest⟩ := Option.bind_eq_some_iff.1 hfound
  cases e with
  | folder children =>
    obtain ⟨-, hchildren⟩ := isTree_folder_iff.1 htree
    obtain ⟨hname, hbelow⟩ := hchildren (name, below) (mem_of_lookup_eq_some hchild)
    exact ⟨children, below, rfl, hchild, hname, hbelow, hrest⟩
  | _ => cases hchild

/-- Every name on the way to what stands in a tree is one that an entry can bear. -/
theorem isFileName_of_get? {found : Entry} (htree : e.IsTree)
    (hfound : e.get? location = some found) : ∀ name ∈ location, isFileName name := by
  induction location generalizing e with
  | nil => exact fun name hname => absurd hname List.not_mem_nil
  | cons name rest ih =>
    obtain ⟨children, below, -, -, hname, hbelow, hrest⟩ := exists_child_of_get? htree hfound
    exact List.forall_mem_cons.2 ⟨hname, ih hbelow hrest⟩

/-! ## The order of the walk -/

/-- The files at the locations that are kept, each once, in the order in which a
walk comes to them: what stands below a folder directly behind the folder's own
name, and the entries of one folder by their names. -/
structure Visited (e : Entry) (kept : Location → Prop) (files : List (Location × ByteArray)) :
    Prop where
  mem_iff : ∀ location content,
    (location, content) ∈ files ↔ e.get? location = some (.file content) ∧ kept location
  ascending : files.Pairwise fun a b => a.1 < b.1

/-- **There is one such list.** -/
theorem Visited.unique (h : e.Visited kept files) (h' : e.Visited kept files') :
    files = files' := by
  have hnodup {l : List (Location × ByteArray)} (hl : l.Pairwise fun a b => a.1 < b.1) :
      l.Nodup := by
    refine hl.imp fun {a b} hab heq => ?_
    subst heq
    exact lt_irrefl a.1 hab
  have hperm : files.Perm files' := by
    refine (List.perm_ext_iff_of_nodup (hnodup h.ascending) (hnodup h'.ascending)).2 ?_
    rintro ⟨location, content⟩
    rw [h.mem_iff, h'.mem_iff]
  refine hperm.eq_of_pairwise (fun a b _ _ hab hba => ?_) h.ascending h'.ascending
  exact absurd (hab.trans hba) (lt_irrefl a.1)

/-- Some of the files come in the same order. -/
theorem Visited.filter {p : Location × ByteArray → Bool} {kept' : Location → Prop}
    (h : e.Visited kept files)
    (hp : ∀ file ∈ files, p file ↔ kept' file.1) :
    e.Visited (fun location => kept location ∧ kept' location) (files.filter p) := by
  refine ⟨fun location content => ?_, h.ascending.filter p⟩
  rw [List.mem_filter, ← and_assoc, ← h.mem_iff]
  exact and_congr_right fun hmem => hp _ hmem

/-- A location as a path from where the walk began. -/
def pathTo (path : String) (location : Location) : String :=
  location.foldl Path.join path

theorem pathTo_concat (path : String) (location : Location) (name : String) :
    pathTo path (location ++ [name]) = Path.join (pathTo path location) name := by
  simp [pathTo]

theorem filesOfChildren_eq_map (path : String) (children : List (String × Entry)) :
    filesOfChildren path children =
      children.map fun child => (child.1, child.2.files (Path.join path child.1)) := by
  induction children with
  | nil => rfl
  | cons child children ih => rw [filesOfChildren, ih, List.map_cons]

/-- The entries of a folder by their names. -/
def byName (children : List (String × Entry)) : List (String × Entry) :=
  children.mergeSort fun a b => decide (a.1 ≤ b.1)

theorem mem_byName {child : String × Entry} : child ∈ byName children ↔ child ∈ children :=
  List.mem_mergeSort

theorem pairwise_byName (h : (children.map Prod.fst).Nodup) :
    (byName children).Pairwise fun a b => a.1 < b.1 := by
  have hle : (byName children).Pairwise fun a b => a.1 ≤ b.1 := by
    refine (List.pairwise_mergeSort (fun a b c hab hbc => ?_) (fun a b => ?_) children).imp
      fun {a b} hab => of_decide_eq_true hab
    · exact decide_eq_true ((of_decide_eq_true hab).trans (of_decide_eq_true hbc))
    · simpa using le_total a.1 b.1
  have hne : (byName children).Pairwise fun a b => a.1 ≠ b.1 := by
    rw [← List.pairwise_map (f := Prod.fst)]
    exact ((List.mergeSort_perm children _).map Prod.fst).nodup_iff.2 h
  exact (hle.and hne).imp fun {a b} hab => lt_of_le_of_ne hab.1 hab.2

/-- The walk of a folder is that of its entries, one behind the other. -/
theorem files_folder (path : String) (children : List (String × Entry)) :
    (folder children).files path =
      (byName children).flatMap fun child => child.2.files (Path.join path child.1) := by
  rw [files, filesOfChildren_eq_map,
    ← List.map_mergeSort (r := fun a b => decide (a.1 ≤ b.1)) (fun a _ b _ => rfl),
    List.flatMap_map]
  rfl

/-- A folder is walked by walking its entries by their names. -/
theorem visited_folder {held : String × Entry → List (Location × ByteArray)}
    (hnodup : (children.map Prod.fst).Nodup)
    (hheld : ∀ child ∈ children, child.2.Visited (fun _ => True) (held child)) :
    (folder children).Visited (fun _ => True) ((byName children).flatMap fun child =>
      (held child).map fun file => (child.1 :: file.1, file.2)) := by
  refine ⟨fun location content => ?_, List.pairwise_flatMap.2 ⟨fun child hchild => ?_, ?_⟩⟩
  · simp only [List.mem_flatMap, mem_byName, List.mem_map, Prod.mk.injEq, and_true]
    constructor
    · rintro ⟨child, hchild, ⟨rest, content'⟩, hmem, rfl, rfl⟩
      rw [get?_folder_cons_of_mem hnodup hchild]
      exact (((hheld child hchild).mem_iff rest content').1 hmem).1
    · intro hfile
      cases location with
      | nil => cases hfile
      | cons name rest =>
        obtain ⟨e, hlookup, hrest⟩ := Option.bind_eq_some_iff.1 hfile
        have hchild : (name, e) ∈ children := mem_of_lookup_eq_some hlookup
        have hmem := ((hheld (name, e) hchild).mem_iff rest content).2 ⟨hrest, trivial⟩
        exact ⟨(name, e), hchild, (rest, content), hmem, rfl, rfl⟩
  · -- within one entry the rest of the location decides
    refine List.pairwise_map.2 ((hheld child (mem_byName.1 hchild)).ascending.imp ?_)
    intro a b hab
    exact List.cons_lt_cons_iff.2 (.inr ⟨rfl, hab⟩)
  · -- between two entries their names decide
    refine (pairwise_byName hnodup).imp fun {child child'} hlt a ha b hb => ?_
    obtain ⟨below, -, rfl⟩ := List.mem_map.1 ha
    obtain ⟨below', -, rfl⟩ := List.mem_map.1 hb
    exact List.cons_lt_cons_iff.2 (.inl hlt)

/-- What is no file and no folder is passed over. -/
theorem visited_nil (h : ∀ location content, e.get? location ≠ some (.file content)) :
    e.Visited kept [] := by
  refine ⟨fun location content => ?_, .nil⟩
  simp [h]

/-- **What a walk lists.** It is every file of the tree, in the one order of
`Visited`, each under the path that its location gives. -/
theorem exists_visited (htree : e.IsTree) :
    ∃ files, e.Visited (fun _ => True) files ∧
      ∀ path, e.files path = files.map fun file => (pathTo path file.1, file.2) := by
  induction e using induction with
  | file content =>
    refine ⟨[([], content)], ⟨fun location content' => ?_, List.pairwise_singleton _ _⟩, ?_⟩
    · cases location with
      | nil => simp [get?, eq_comm]
      | cons name rest => simp [get?, child?]
    · intro path
      simp [files, pathTo]
  | folder children ih =>
    obtain ⟨hnodup, hchildren⟩ := isTree_folder_iff.1 htree
    choose! held hvisited hpath using fun child hchild => ih child hchild (hchildren child hchild).2
    refine ⟨_, visited_folder hnodup hvisited, fun path => ?_⟩
    rw [files_folder, List.map_flatMap]
    refine List.flatMap_congr fun child hchild => ?_
    rw [hpath child (mem_byName.1 hchild), List.map_map]
    rfl
  | nullDevice =>
    refine ⟨[], visited_nil fun location content h => ?_, fun _ => rfl⟩
    cases location <;> cases h
  | fullDevice =>
    refine ⟨[], visited_nil fun location content h => ?_, fun _ => rfl⟩
    cases location <;> cases h

end Entry

namespace Path

variable {base name : String}

theorem isFileName_iff : isFileName name ↔
    name.toList ≠ [] ∧ name.toList ≠ ['.'] ∧ name.toList ≠ ['.', '.'] ∧
      '/' ∉ name.toList ∧ '\x00' ∉ name.toList := by
  have hchars : (name.toList.all fun c => c ≠ '/' && c ≠ '\x00') ↔
      '/' ∉ name.toList ∧ '\x00' ∉ name.toList := by
    simp only [List.all_eq_true, Bool.and_eq_true, decide_eq_true_eq]
    constructor
    · intro h
      exact ⟨fun hmem => (h _ hmem).1 rfl, fun hmem => (h _ hmem).2 rfl⟩
    · rintro ⟨hslash, hnul⟩ c hc
      exact ⟨fun heq => hslash (heq ▸ hc), fun heq => hnul (heq ▸ hc)⟩
  have hne (s : String) : name ≠ s ↔ name.toList ≠ s.toList := String.toList_inj.not.symm
  simp only [isFileName, Bool.and_eq_true, decide_eq_true_eq, hchars, hne, and_assoc]
  rfl

/-- A name is seen from a path behind a slash, and there is only one between them. -/
theorem toList_join (hname : isFileName name) (hbase : base ≠ "") :
    ∃ before, (base.toList = before ∨ base.toList = before ++ ['/']) ∧
      (join base name).toList = before ++ '/' :: name.toList := by
  obtain ⟨hne, -, -, hslash, -⟩ := isFileName_iff.1 hname
  have habsolute : isAbsolute name = false := by
    rw [isAbsolute, decide_eq_false_iff_not]
    exact fun hhead => hslash (List.mem_of_head? hhead)
  rw [join, if_neg (by simp [habsolute])]
  split
  · rename_i hlast
    have hlast := hlast.resolve_left hbase
    have hends : base.toList = base.toList.dropLast ++ ['/'] :=
      (List.dropLast_append_getLast? _ hlast).symm
    refine ⟨base.toList.dropLast, .inr hends, ?_⟩
    rw [String.toList_append]
    nth_rewrite 1 [hends]
    simp
  · exact ⟨base.toList, .inl rfl, by simp⟩

/-- The name is one more segment. -/
theorem segments_join (hname : isFileName name) (hbase : base ≠ "") :
    ∃ before, before ≠ [] ∧ (segments base = before ∨ segments base = before ++ [[]]) ∧
      segments (join base name) = before ++ [name.toList] := by
  obtain ⟨-, -, -, hslash, -⟩ := isFileName_iff.1 hname
  obtain ⟨before, hbefore, hjoin⟩ := toList_join hname hbase
  refine ⟨before.splitOn '/', List.splitOn_ne_nil _ _,
    hbefore.imp (fun h => ?_) (fun h => ?_), ?_⟩
  · rw [segments, h]
  · rw [segments, h, List.splitOn_append_cons_self, List.splitOn_nil]
  · rw [segments, hjoin, List.splitOn_append_cons_self, List.splitOn_eq_singleton hslash]

/-- The name is what the path leads to. -/
theorem fileName?_join (hname : isFileName name) (hbase : base ≠ "") :
    fileName? (join base name) = some name := by
  obtain ⟨hne, hdot, hup, -, -⟩ := isFileName_iff.1 hname
  obtain ⟨before, -, -, hsegments⟩ := segments_join hname hbase
  have hidle : isIdle name.toList = false := by simp [isIdle, hne, hdot]
  have hlast : (components (join base name)).getLast? = some (.name name) := by
    simp [components, hsegments, hidle, hup]
  rw [fileName?, hlast]

theorem join_ne_empty (hname : isFileName name) (hbase : base ≠ "") : join base name ≠ "" := by
  obtain ⟨before, -, hjoin⟩ := toList_join hname hbase
  intro h
  simp [h] at hjoin

theorem isAbsolute_join (hname : isFileName name) (hbase : base ≠ "") :
    isAbsolute (join base name) = isAbsolute base := by
  obtain ⟨before, hbefore, hjoin⟩ := toList_join hname hbase
  have hne : base.toList ≠ [] := fun h => hbase (String.toList_inj.1 h)
  rw [isAbsolute, isAbsolute, hjoin]
  obtain h | h := hbefore
  · rw [h] at hne ⊢
    rw [List.head?_append_of_ne_nil _ hne]
  · rw [h]
    cases before <;> rfl

theorem contains_nul_join (hname : isFileName name) (hbase : base ≠ "") :
    (join base name).toList.contains '\x00' = base.toList.contains '\x00' := by
  obtain ⟨-, -, -, -, hnul⟩ := isFileName_iff.1 hname
  obtain ⟨before, hbefore, hjoin⟩ := toList_join hname hbase
  rw [hjoin]
  obtain h | h := hbefore
  · simp [h, hnul]
  · simp [h, hnul]

/-- The extension of a name is `json` when something stands before the dot. -/
theorem extension?_join_eq_json_iff (hname : isFileName name) (hbase : base ≠ "") :
    extension? (join base name) = some "json" ↔ ∃ stem, stem ≠ "" ∧ name = stem ++ ".json" := by
  have hextension : extension? (join base name) =
      if (splitLastDot name.toList).2.length + 1 < name.toList.length then
        some (String.ofList (splitLastDot name.toList).2) else none := by
    rw [extension?, fileName?_join hname hbase]
    rfl
  have hjson : (".json" : String).toList = '.' :: ['j', 's', 'o', 'n'] := rfl
  rw [hextension]
  constructor
  · intro h
    split at h
    · rename_i hlength
      by_cases hdot : '.' ∈ name.toList
      · obtain ⟨stem, last, hcut, hlast⟩ := exists_eq_append_dot hdot
        rw [hcut, splitLastDot_append hlast] at h hlength
        have hlast : last = ['j', 's', 'o', 'n'] := by
          have heq := congrArg String.toList (Option.some.inj h)
          rwa [String.toList_ofList] at heq
        refine ⟨String.ofList stem, fun hstem => ?_, ?_⟩
        · have hnil : stem = [] := by simpa using congrArg String.toList hstem
          simp [hnil] at hlength
        · rw [← String.toList_inj, String.toList_append, String.toList_ofList, hjson, hcut, hlast]
      · rw [splitLastDot_eq_of_notMem hdot] at hlength
        dsimp only at hlength
        omega
    · cases h
  · rintro ⟨stem, hstem, rfl⟩
    have hne : stem.toList ≠ [] := fun h => hstem (String.toList_inj.1 h)
    have hcut : splitLastDot (stem ++ ".json").toList = (stem.toList, ['j', 's', 'o', 'n']) := by
      rw [String.toList_append, hjson]
      exact splitLastDot_append (by decide)
    rw [hcut, if_pos]
    · have hpos : 0 < stem.toList.length := List.length_pos_iff.2 hne
      rw [String.toList_append, hjson]
      simp only [List.length_append, List.length_cons, List.length_nil]
      omega

end Path

namespace FileSystem

variable {fs : FileSystem} {path name : String} {place location : Location} {e found : Entry}
variable {children : List (String × Entry)}

/-- A folder that a path leads to is not left by a last step that is idle. -/
theorem follow_of_concat_nil {start : Location} {before segments : List (List Char)}
    (hsegments : segments = before ∨ segments = before ++ [[]])
    (h : fs.follow start segments = .ok place) : fs.follow start before = .ok place := by
  obtain rfl | rfl := hsegments
  · exact h
  · rw [follow_append] at h
    obtain ⟨place', hbefore, hlast⟩ := bind_eq_ok_iff.1 h
    obtain ⟨next, hstep, hnext⟩ := follow_cons_eq_ok_iff.1 hlast
    cases hnext
    cases hstep with
    | stay => exact hbefore
    | climb _ hidle => exact absurd rfl hidle
    | descend _ hidle => exact absurd rfl hidle

/-- **One more name** leads from a folder to what bears the name there. -/
theorem locate_join (hlocate : fs.locate path = .ok place)
    (hfolder : fs.at? place = some (.folder children)) (hname : isFileName name)
    (hfound : children.lookup name = some found) :
    fs.locate (Path.join path name) = .ok (place ++ [name]) := by
  obtain ⟨hne, hdot, hup, hslash, hnul⟩ := Path.isFileName_iff.1 hname
  -- the last step, wherever the path starts
  have hlast : fs.follow place [name.toList] = .ok (place ++ [name]) := by
    have hat : fs.at? (place ++ [name]) = some found := by
      rw [at?, Entry.get?_concat hfolder, hfound]
    refine follow_cons_eq_ok_iff.2
      ⟨place ++ [String.ofList name.toList], .descend ?_ ?_ hup ?_, ?_⟩
    · rw [shape?, hfolder]
      rfl
    · simp [Path.isIdle, hne, hdot]
    · rw [String.ofList_toList, shape?, hat]
      rfl
    · rw [String.ofList_toList]
      rfl
  obtain ⟨start, segments, hbegin, hfollow⟩ := locate_eq_ok_iff.1 hlocate
  have hpath : path ≠ "" := by
    rintro rfl
    cases hbegin
  obtain ⟨before, hbefore, hcut, hjoin⟩ := Path.segments_join hname hpath
  rw [begin, if_neg hpath] at hbegin
  rw [locate_eq_ok_iff, begin, if_neg (Path.join_ne_empty hname hpath),
    Path.contains_nul_join hname hpath, Path.isAbsolute_join hname hpath, hjoin]
  split at hbegin
  · cases hbegin
  · rename_i hnul
    rw [if_neg hnul]
    split at hbegin
    · rename_i habsolute
      rw [if_pos habsolute]
      cases hbegin
      obtain ⟨first, before, rfl⟩ := List.exists_cons_of_ne_nil hbefore
      have htail : (Path.segments path).tail = before ∨
          (Path.segments path).tail = before ++ [[]] :=
        hcut.imp (fun h => by rw [h]; rfl) fun h => by rw [h]; rfl
      refine ⟨[], before ++ [name.toList], rfl, ?_⟩
      rw [follow_append, follow_of_concat_nil htail hfollow]
      exact hlast
    · rename_i habsolute
      rw [if_neg habsolute]
      cases hbegin
      refine ⟨fs.cwd, before ++ [name.toList], rfl, ?_⟩
      rw [follow_append, follow_of_concat_nil hcut hfollow]
      exact hlast

/-- **The path of a location leads there.** -/
theorem locate_pathTo (hlocate : fs.locate path = .ok place) (hat : fs.at? place = some e)
    (htree : e.IsTree) (hfound : e.get? location = some found) :
    fs.locate (Entry.pathTo path location) = .ok (place ++ location) ∧
      fs.at? (place ++ location) = some found := by
  induction location generalizing path place e with
  | nil =>
    cases hfound
    rw [List.append_nil]
    exact ⟨hlocate, hat⟩
  | cons name rest ih =>
    obtain ⟨children, below, rfl, hchild, hname, hbelow, hrest⟩ :=
      Entry.exists_child_of_get? htree hfound
    have hnext : fs.at? (place ++ [name]) = some below := by
      rw [at?, Entry.get?_concat hat]
      exact hchild
    have hend := ih (locate_join hlocate hat hname hchild) hnext hbelow hrest
    rwa [List.append_assoc] at hend

/-- So what stands at a location is what is read at its path. -/
theorem entry_pathTo (hentry : fs.entry path = .ok e) (htree : e.IsTree)
    (hfound : e.get? location = some found) :
    fs.entry (Entry.pathTo path location) = .ok found := by
  obtain ⟨place, hlocate, hat⟩ := entry_eq_ok_iff.1 hentry
  exact entry_eq_ok_iff.2 ⟨_, locate_pathTo hlocate hat htree hfound⟩

end FileSystem

end Ambient
