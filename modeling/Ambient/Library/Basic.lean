import Ambient.Metadata.Basic

/-!
# Libraries

A library is what the records of a directory describe: classes by name, in
the order of their arrival, and the directory that the source files are
relative to. Each class stands under its own name, and no name is empty.
-/

namespace Ambient

/-- The classes of a library by name. -/
structure Library where
  root : String
  classes : Table ClassRecord
  /-- Every class stands under its own name, and that name is not empty. -/
  named : ∀ e ∈ classes.entries, e.2.name = e.1 ∧ e.1 ≠ ""

/-- Why a record cannot be added. -/
inductive InsertError where
  | missingClassName
  | duplicateClass (name : String)
  deriving DecidableEq, Repr

/-- The wording of a refusal. -/
def InsertError.message : InsertError → String
  | .missingClassName => "metadata record has no class name"
  | .duplicateClass name => "class `" ++ name ++ "` is defined more than once"

namespace Library

/-- A library without classes. -/
def empty (root : String) : Library := ⟨root, .empty, by simp [Table.empty]⟩

/-- The record of a class. -/
def find? (lib : Library) (name : String) : Option ClassRecord := lib.classes.get? name

/-- The library describes a class of this name. -/
def contains (lib : Library) (name : String) : Bool := (lib.find? name).isSome

/-- The names of the classes, in the order of their arrival. -/
def names (lib : Library) : List String := lib.classes.keys

/-- The number of classes. -/
def size (lib : Library) : Nat := lib.classes.size

/-- A call to add a class, which has to have a name of its own: the answer, and
the library that the call leaves. -/
def tryInsert (lib : Library) (c : ClassRecord) : Except InsertError Unit × Library :=
  if h : c.name = "" then (.error .missingClassName, lib)
  else if lib.contains c.name then (.error (.duplicateClass c.name), lib)
  else (.ok (), {
    root := lib.root
    classes := lib.classes.insert c.name c
    named := fun e he => (mem_upsert he).elim (fun he => he ▸ ⟨rfl, h⟩) (lib.named e) })

/-- The library with one more class, if the call to add it is not refused. -/
def insert (lib : Library) (c : ClassRecord) : Except InsertError Library :=
  match lib.tryInsert c with
  | (.ok (), lib) => .ok lib
  | (.error e, _) => .error e

/-- The library of a list of records, up to the first that is refused. -/
def ofRecords (root : String) (cs : List ClassRecord) : Except InsertError Library :=
  cs.foldlM insert (empty root)

/-- A class is found under its own name. -/
theorem name_of_find? {lib : Library} {name : String} {c : ClassRecord}
    (h : lib.find? name = some c) : c.name = name :=
  (lib.named _ (mem_of_lookup_eq_some h)).1

theorem mem_names_of_find? {lib : Library} {name : String} {c : ClassRecord}
    (h : lib.find? name = some c) : name ∈ lib.names :=
  List.mem_map_of_mem (f := Prod.fst) (mem_of_lookup_eq_some h)

/-- The library describes exactly the classes it names. -/
theorem contains_iff {lib : Library} {name : String} : lib.contains name ↔ name ∈ lib.names :=
  Table.contains_iff

/-! ## What adding a class changes -/

variable {lib lib' : Library} {c : ClassRecord}

/-- No class of a library is without a name. -/
theorem empty_notMem_names : "" ∉ lib.names := by
  intro h
  obtain ⟨c, hc⟩ := Option.isSome_iff_exists.1 (contains_iff.2 h)
  exact (lib.named _ (mem_of_lookup_eq_some hc)).2 rfl

theorem tryInsert_of_unnamed (h : c.name = "") :
    lib.tryInsert c = (.error .missingClassName, lib) := by
  rw [tryInsert, dif_pos h]

theorem tryInsert_of_taken (h : c.name ∈ lib.names) :
    lib.tryInsert c = (.error (.duplicateClass c.name), lib) := by
  have hname : c.name ≠ "" := fun heq => empty_notMem_names (heq ▸ h)
  rw [tryInsert, dif_neg hname, if_pos (contains_iff.2 h)]

/-- A record with a name of its own is added. -/
theorem tryInsert_of_new (hname : c.name ≠ "") (hnew : c.name ∉ lib.names) :
    ∃ lib', lib.tryInsert c = (.ok (), lib') ∧ lib'.root = lib.root ∧
      lib'.classes = lib.classes.insert c.name c := by
  rw [tryInsert, dif_neg hname, if_neg fun h => hnew (contains_iff.1 h)]
  exact ⟨_, rfl, rfl, rfl⟩

/-- **What a call can do.** It is refused for want of a name or for a name
that is taken, and then the library is as it was, or it adds the record. -/
theorem tryInsert_cases (lib : Library) (c : ClassRecord) :
    (c.name = "" ∧ lib.tryInsert c = (.error .missingClassName, lib)) ∨
      (c.name ∈ lib.names ∧ lib.tryInsert c = (.error (.duplicateClass c.name), lib)) ∨
      (c.name ≠ "" ∧ c.name ∉ lib.names ∧ ∃ lib', lib.tryInsert c = (.ok (), lib') ∧
        lib'.root = lib.root ∧ lib'.classes = lib.classes.insert c.name c) := by
  by_cases hname : c.name = ""
  · exact .inl ⟨hname, tryInsert_of_unnamed hname⟩
  · by_cases htaken : c.name ∈ lib.names
    · exact .inr (.inl ⟨htaken, tryInsert_of_taken htaken⟩)
    · exact .inr (.inr ⟨hname, htaken, tryInsert_of_new hname htaken⟩)

theorem insert_of_tryInsert_eq_ok (h : lib.tryInsert c = (.ok (), lib')) :
    lib.insert c = .ok lib' := by
  rw [insert, h]

theorem insert_of_tryInsert_eq_error {e : InsertError} (h : lib.tryInsert c = (.error e, lib')) :
    lib.insert c = .error e := by
  rw [insert, h]

/-- A record is added when it has a name that is not taken. -/
theorem insert_eq_ok_iff : lib.insert c = .ok lib' ↔
    c.name ≠ "" ∧ c.name ∉ lib.names ∧ lib'.root = lib.root ∧
      lib'.classes = lib.classes.insert c.name c := by
  obtain ⟨hname, h⟩ | ⟨htaken, h⟩ | ⟨hname, hnew, lib₁, h, hroot, hclasses⟩ :=
    lib.tryInsert_cases c
  · rw [insert_of_tryInsert_eq_error h]
    exact ⟨fun hok => (by cases hok), fun hok => absurd hname hok.1⟩
  · rw [insert_of_tryInsert_eq_error h]
    exact ⟨fun hok => (by cases hok), fun hok => absurd htaken hok.2.1⟩
  · rw [insert_of_tryInsert_eq_ok h, Except.ok.injEq]
    constructor
    · rintro rfl
      exact ⟨hname, hnew, hroot, hclasses⟩
    · rintro ⟨-, -, hroot', hclasses'⟩
      cases lib'
      cases lib₁
      cases hroot'.trans hroot.symm
      cases hclasses'.trans hclasses.symm
      rfl

/-- A record is refused for want of a name or for a name that is taken. -/
theorem insert_eq_error_iff {e : InsertError} : lib.insert c = .error e ↔
    (c.name = "" ∧ e = .missingClassName) ∨
      (c.name ∈ lib.names ∧ e = .duplicateClass c.name) := by
  obtain ⟨hname, h⟩ | ⟨htaken, h⟩ | ⟨hname, hnew, lib₁, h, -⟩ := lib.tryInsert_cases c
  · rw [insert_of_tryInsert_eq_error h]
    simp [hname, empty_notMem_names, eq_comm]
  · have hname : c.name ≠ "" := fun heq => empty_notMem_names (heq ▸ htaken)
    rw [insert_of_tryInsert_eq_error h]
    simp [hname, htaken, eq_comm]
  · rw [insert_of_tryInsert_eq_ok h]
    simp [hname, hnew]

theorem find?_of_insert (h : lib.insert c = .ok lib') (name : String) :
    lib'.find? name = if name = c.name then some c else lib.find? name := by
  rw [find?, (insert_eq_ok_iff.1 h).2.2.2, Table.get?_insert]
  rfl

/-- The new class comes last. -/
theorem names_of_insert (h : lib.insert c = .ok lib') : lib'.names = lib.names ++ [c.name] := by
  obtain ⟨_, hnew, _, hclasses⟩ := insert_eq_ok_iff.1 h
  rw [names, hclasses, Table.keys_insert]
  exact if_neg hnew

end Library

end Ambient
