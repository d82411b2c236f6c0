import Ambient.Files.Tree
import Ambient.Proofs.Except

/-!
# What opening and writing a file changes

A path is opened for writing at a location that admits a file: its folder
exists, and no folder stands there (`create_eq_ok`). What is written at such
a location is all that changes among the files of the tree (`file?_fill`);
a device there keeps nothing of it.
-/

namespace Ambient

namespace Entry

variable {e new : Entry} {location parent rest : Location} {name : String}
variable {children : List (String × Entry)}

/-- The entry can have entries of its own. -/
def isFolder : Entry → Bool
  | .folder _ => true
  | _ => false

/-- The file or the device at a location below an entry. -/
def file? (e : Entry) (location : Location) : Option Entry :=
  (e.get? location).filter fun found => !found.isFolder

/-- A file can stand at a location: its folder exists, and no folder stands
there. -/
def Admits (e : Entry) (location : Location) : Prop :=
  ∃ parent name children, location = parent ++ [name] ∧
    e.get? parent = some (.folder children) ∧ ∀ es, children.lookup name ≠ some (.folder es)

/-- What stands in a folder is found behind the location of the folder. -/
theorem get?_concat (h : e.get? parent = some (.folder children)) (name : String) :
    e.get? (parent ++ [name]) = children.lookup name := by
  induction parent generalizing e with
  | nil =>
    cases h
    simp [get?, child?]
  | cons step parent ih =>
    obtain ⟨below, hstep, hbelow⟩ := Option.bind_eq_some_iff.1 h
    rw [List.cons_append, get?, hstep, Option.bind_some, ih hbelow]

/-- What an entry is, whatever it holds if it is a folder. -/
def surface : Entry → Entry
  | .folder _ => .folder []
  | e => e

/-- What stands at a location below an entry, whatever stands further below. -/
def surface? (e : Entry) (location : Location) : Option Entry :=
  (e.get? location).map surface

theorem file?_eq (e : Entry) (location : Location) :
    e.file? location = (e.surface? location).filter fun found => !found.isFolder := by
  rw [file?, surface?]
  cases e.get? location with
  | none => rfl
  | some found => cases found <;> rfl

theorem surface?_cons (e : Entry) (name : String) (rest : Location) :
    e.surface? (name :: rest) = (e.child? name).bind (·.surface? rest) := by
  cases h : e.child? name <;> simp [surface?, get?, h]

/-- Below what is no folder there is nothing but itself. -/
theorem surface?_of_not_isFolder (h : e.isFolder = false) (location : Location) :
    e.surface? location = if location = [] then some e else none := by
  cases location with
  | nil => cases e <;> simp_all [surface?, surface, get?, isFolder]
  | cons name rest => cases e <;> simp_all [surface?_cons, child?, isFolder]

/-- Beyond a name that leads to no folder there is nothing. -/
theorem surface?_cons_of_ne_folder (h : ∀ es, e.child? name ≠ some (.folder es))
    (hrest : rest ≠ []) : e.surface? (name :: rest) = none := by
  rw [surface?_cons]
  cases hchild : e.child? name with
  | none => rfl
  | some found =>
    have hfound : found.isFolder = false := by
      cases found with
      | folder es => exact absurd hchild (h es)
      | _ => rfl
    rw [Option.bind_some, surface?_of_not_isFolder hfound, if_neg hrest]

theorem child?_set_cons (e : Entry) (name : String) (rest : Location) (new : Entry)
    (other : String) :
    (e.set (name :: rest) new).child? other =
      if other = name then some (((e.child? name).getD (.folder [])).set rest new)
      else e.child? other := by
  have hchildren : e.children.lookup other = e.child? other := by
    cases e <;> rfl
  rw [← hchildren]
  exact lookup_upsert name _ e.children other

/-- Of two entries set at one location the second stays. -/
theorem set_set (e : Entry) (location : Location) (new newer : Entry) :
    (e.set location new).set location newer = e.set location newer := by
  induction location generalizing e with
  | nil => rfl
  | cons name rest ih =>
    have hchild := child?_set_cons e name rest new name
    rw [if_pos rfl] at hchild
    rw [set, hchild, Option.getD_some, ih, set, children, upsert_upsert, set]

/-- **Setting a file at a location that admits one** changes what stands there,
and nothing at any other location. -/
theorem surface?_set (h : e.Admits location) (hnew : new.isFolder = false) (other : Location) :
    (e.set location new).surface? other =
      if other = location then some new else e.surface? other := by
  obtain ⟨parent, name, children, rfl, hparent, hslot⟩ := h
  induction parent generalizing e other with
  | nil =>
    cases hparent
    cases other with
    | nil => rfl
    | cons first rest =>
      rw [List.nil_append, surface?_cons, child?_set_cons]
      by_cases hfirst : first = name
      · subst hfirst
        rw [if_pos rfl, Option.bind_some, set, surface?_of_not_isFolder hnew]
        by_cases hrest : rest = []
        · simp [hrest]
        · have hbeyond : (folder children).surface? (first :: rest) = none :=
            surface?_cons_of_ne_folder hslot hrest
          simp [hrest, hbeyond]
      · simp [hfirst, surface?_cons]
  | cons step parent ih =>
    obtain ⟨below, hstep, hbelow⟩ := Option.bind_eq_some_iff.1 hparent
    cases other with
    | nil =>
      cases e with
      | folder children => rfl
      | _ => cases hstep
    | cons first rest =>
      rw [List.cons_append, surface?_cons, child?_set_cons, surface?_cons]
      by_cases hfirst : first = step
      · subst hfirst
        simp only [if_pos, hstep, Option.getD_some, Option.bind_some, List.cons.injEq, true_and]
        exact ih rest hbelow
      · simp [hfirst]

/-- So it changes that file and no other. -/
theorem file?_set (h : e.Admits location) (hnew : new.isFolder = false) (other : Location) :
    (e.set location new).file? other = if other = location then some new else e.file? other := by
  rw [file?_eq, file?_eq, surface?_set h hnew]
  split
  · simp [hnew]
  · rfl

/-- A location that admits a file has no folder. -/
theorem Admits.get?_ne_folder (h : e.Admits location) (es : List (String × Entry)) :
    e.get? location ≠ some (.folder es) := by
  obtain ⟨parent, name, children, rfl, hparent, hslot⟩ := h
  rw [get?_concat hparent]
  exact hslot es

end Entry

namespace FileSystem

variable {fs fs' : FileSystem} {location : Location} {path : String}

/-- The file or the device at a location. -/
def file? (fs : FileSystem) (location : Location) : Option Entry := fs.root.file? location

/-- A device stands at a location. -/
def isDevice (fs : FileSystem) (location : Location) : Bool :=
  match fs.at? location with
  | some .nullDevice | some .fullDevice => true
  | _ => false

/-- The tree after all bytes of a text went to a location. A device keeps nothing. -/
def fill (fs : FileSystem) (location : Location) (content : ByteArray) : FileSystem :=
  if fs.isDevice location then fs else fs.write location content

theorem at?_write (fs : FileSystem) (location : Location) (content : ByteArray) :
    (fs.write location content).at? location = some (.file content) :=
  fs.root.get?_set_self location (.file content)

theorem write_write (fs : FileSystem) (location : Location) (content newer : ByteArray) :
    (fs.write location content).write location newer = fs.write location newer := by
  simp only [write, Entry.set_set]

/-- Every file but the one at the location is as before, and that one has the
new content. -/
theorem file?_fill (h : fs.root.Admits location) (content : ByteArray) (other : Location) :
    (fs.fill location content).file? other =
      if other = location ∧ fs.isDevice location = false then some (.file content)
      else fs.file? other := by
  rw [fill]
  cases hdevice : fs.isDevice location with
  | true => simp
  | false =>
    simp only [Bool.false_eq_true, if_false, and_true]
    exact Entry.file?_set h rfl other

/-- A path without a slash at its end is cut before its last step. -/
theorem eq_concat_of_splitLast {segments before : List (List Char)} {last : List Char}
    (h : Path.splitLast segments = some (before, last, false)) :
    segments = before ++ [last] ∧ last ≠ [] := by
  rw [Path.splitLast] at h
  cases hdrop : segments.reverse.dropWhile (· = []) with
  | nil => simp [hdrop] at h
  | cons first others =>
    simp only [hdrop, Option.some.injEq, Prod.mk.injEq, decide_eq_false_iff_not] at h
    obtain ⟨rfl, rfl, hlength⟩ := h
    have hfirst : first ≠ [] := by
      have hhead := List.head_dropWhile_not (· = ([] : List Char)) (l := segments.reverse)
      simpa [hdrop] using hhead
    -- nothing was dropped: the rest is as long as the whole
    have hwhole : first :: others = segments.reverse := by
      rw [← hdrop]
      refine (List.dropWhile_suffix _).eq_of_length_le ?_
      rw [hdrop, List.length_reverse, List.length_cons]
      omega
    rw [← List.reverse_reverse segments, ← hwhole, List.reverse_cons]
    exact ⟨rfl, hfirst⟩

/-- **What opening a path does.** Its folder is followed to, its last step is a
name that no folder bears there, and the file of that name is made empty. -/
theorem exists_steps_of_create (h : fs.create path = .ok (location, fs')) :
    ∃ start before last parent children,
      fs.begin path = .ok (start, before ++ [last]) ∧
      ¬ Path.isIdle last ∧ last ≠ ['.', '.'] ∧
      fs.follow start before = .ok parent ∧ fs.at? parent = some (.folder children) ∧
      (∀ es, children.lookup (String.ofList last) ≠ some (.folder es)) ∧
      location = parent ++ [String.ofList last] ∧ fs' = fs.fill location ByteArray.empty := by
  obtain ⟨⟨start, segments⟩, hbegin, h⟩ := bind_eq_ok_iff.1 h
  cases hlast : Path.splitLast segments with
  | none => simp [hlast] at h
  | some parts =>
    obtain ⟨before, last, trailing⟩ := parts
    simp only [hlast] at h
    obtain ⟨parent, hfollow, hopen⟩ := bind_eq_ok_iff.1 h
    split at hopen
    · rename_i children hparent
      split at hopen
      · cases hopen
      · rename_i hname
        simp only [not_or, Bool.not_eq_true] at hname
        obtain ⟨hdot, hup, rfl⟩ := hname
        obtain ⟨rfl, hne⟩ := eq_concat_of_splitLast hlast
        have hat : fs.at? (parent ++ [String.ofList last]) =
            children.lookup (String.ofList last) := Entry.get?_concat hparent _
        refine ⟨start, before, last, parent, children, hbegin, by simp [Path.isIdle, hne, hdot],
          hup, hfollow, hparent, ?_⟩
        split at hopen
        case h_3 => cases hopen
        -- nothing, a file or a device: the slot is free for output
        all_goals
          rename_i hfound
          cases hopen
          exact ⟨by simp [hfound], rfl, by simp [fill, isDevice, hat, hfound]⟩
    · cases hopen
    · cases hopen

/-- A path is opened at a location that admits a file, and the file there is
made empty. -/
theorem create_eq_ok (h : fs.create path = .ok (location, fs')) :
    fs.root.Admits location ∧ fs' = fs.fill location ByteArray.empty := by
  obtain ⟨_, _, last, parent, children, -, -, -, -, hparent, hslot, hlocation, hfill⟩ :=
    exists_steps_of_create h
  exact ⟨⟨parent, String.ofList last, children, hlocation, hparent, hslot⟩, hfill⟩

end FileSystem

end Ambient
