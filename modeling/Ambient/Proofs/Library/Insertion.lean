import Mathlib.Data.List.Basic
import Ambient.Proofs.Library.Arrival

/-!
# Calls to add a record

Records are offered to a library one after the other, with names and without,
and some of them under names that are taken. A call that is refused says why
and changes nothing (`tryInsert_cases`), so after any run of calls the library
lists each name once, where it first came, with the record that came with it
(`names_tryInsertAll`, `find?_tryInsertAll`). The library of a list of records
is what the run leaves, and exists when no call of the run was refused
(`foldlM_insert_eq_ok_iff_answers`).
-/

namespace Ambient.Library

variable {lib lib' : Library} {c : ClassRecord} {cs : List ClassRecord} {name : String}

/-- Calls one after the other, whatever the answers to those before are. -/
def tryInsertAll (lib : Library) : List ClassRecord → List (Except InsertError Unit) × Library
  | [] => ([], lib)
  | c :: cs =>
    let (answer, lib) := lib.tryInsert c
    let (answers, lib) := lib.tryInsertAll cs
    (answer :: answers, lib)

/-! ## A run of calls -/

theorem tryInsertAll_cons (lib : Library) (c : ClassRecord) (cs : List ClassRecord) :
    lib.tryInsertAll (c :: cs) =
      ((lib.tryInsert c).1 :: ((lib.tryInsert c).2.tryInsertAll cs).1,
        ((lib.tryInsert c).2.tryInsertAll cs).2) := rfl

/-- A run goes on where the calls before have left the library. -/
theorem tryInsertAll_append (lib : Library) (before after : List ClassRecord) :
    lib.tryInsertAll (before ++ after) =
      ((lib.tryInsertAll before).1 ++ ((lib.tryInsertAll before).2.tryInsertAll after).1,
        ((lib.tryInsertAll before).2.tryInsertAll after).2) := by
  induction before generalizing lib with
  | nil => rfl
  | cons c before ih => rw [List.cons_append, tryInsertAll_cons, tryInsertAll_cons, ih]; rfl

/-- Each call is answered by what the calls before it have left. -/
theorem answers_tryInsertAll (lib : Library) (cs : List ClassRecord) :
    (lib.tryInsertAll cs).1 =
      cs.mapIdx fun i c => ((lib.tryInsertAll (cs.take i)).2.tryInsert c).1 := by
  induction cs generalizing lib with
  | nil => rfl
  | cons c cs ih => rw [tryInsertAll_cons, List.mapIdx_cons, ih]; rfl

theorem root_tryInsertAll (lib : Library) (cs : List ClassRecord) :
    (lib.tryInsertAll cs).2.root = lib.root := by
  induction cs generalizing lib with
  | nil => rfl
  | cons c cs ih =>
    rw [tryInsertAll_cons, ih]
    obtain ⟨-, h⟩ | ⟨-, h⟩ | ⟨-, -, lib', h, hroot, -⟩ := lib.tryInsert_cases c
    · rw [h]
    · rw [h]
    · rw [h, hroot]

/-- **The names after a run**: behind those that were there the new ones, each
where it first came. -/
theorem names_tryInsertAll (lib : Library) (cs : List ClassRecord) :
    (lib.tryInsertAll cs).2.names =
      lib.names ++ ((cs.map (·.name)).filter fun n => n ≠ "" ∧ n ∉ lib.names).eraseDups := by
  induction cs generalizing lib with
  | nil => simp [tryInsertAll]
  | cons c cs ih =>
    rw [tryInsertAll_cons, List.map_cons]
    obtain ⟨hname, h⟩ | ⟨htaken, h⟩ | ⟨hname, hnew, lib', h, -⟩ := lib.tryInsert_cases c
    · rw [h, ih, List.filter_cons_of_neg (by simp [hname])]
    · rw [h, ih, List.filter_cons_of_neg (by simp [htaken])]
    · -- from here on the name of the record is taken
      have hinsert := insert_of_tryInsert_eq_ok h
      have hlater : ((cs.map (·.name)).filter fun n => n ≠ "" ∧ n ∉ lib'.names) =
          ((cs.map (·.name)).filter fun n => n ≠ "" ∧ n ∉ lib.names).filter
            fun n => !n == c.name := by
        rw [List.filter_filter, names_of_insert hinsert]
        refine List.filter_congr fun n _ => ?_
        by_cases heq : n = c.name <;> simp [heq]
      rw [h, ih, hlater, names_of_insert hinsert,
        List.filter_cons_of_pos (by simp [hname, hnew]), List.eraseDups_cons,
        List.append_assoc, List.singleton_append]

/-- **The records after a run**: under a name that was there its record, under
another the first that came with it. -/
theorem find?_tryInsertAll (lib : Library) (cs : List ClassRecord) (name : String) :
    (lib.tryInsertAll cs).2.find? name =
      (lib.find? name).or (if name = "" then none else cs.find? (·.name = name)) := by
  induction cs generalizing lib with
  | nil => cases hfind : lib.find? name <;> simp [tryInsertAll, hfind]
  | cons c cs ih =>
    rw [tryInsertAll_cons]
    obtain ⟨hname, h⟩ | ⟨htaken, h⟩ | ⟨hname, hnew, lib', h, -⟩ := lib.tryInsert_cases c
    · rw [h, ih]
      by_cases heq : name = ""
      · rw [if_pos heq, if_pos heq]
      · rw [if_neg heq, if_neg heq,
          List.find?_cons_of_neg (by simp [hname, Ne.symm heq])]
    · rw [h, ih]
      by_cases heq : c.name = name
      · -- the record that was there stays
        obtain ⟨d, hd⟩ := Option.isSome_iff_exists.1 (contains_iff.2 (heq ▸ htaken))
        rw [hd, Option.some_or, Option.some_or]
      · rw [List.find?_cons_of_neg (by simpa using heq)]
    · rw [h, ih, find?_of_insert (insert_of_tryInsert_eq_ok h)]
      by_cases heq : name = c.name
      · subst heq
        have hfind : lib.find? c.name = none := by
          rw [← Option.not_isSome_iff_eq_none]
          exact fun hsome => hnew (contains_iff.1 hsome)
        rw [if_pos rfl, if_neg hname, if_neg hname, List.find?_cons_of_pos (by simp), hfind,
          Option.some_or, Option.none_or]
      · rw [if_neg heq, List.find?_cons_of_neg (by simpa using Ne.symm heq)]

/-- Adding a list of records succeeds when no call of the run is refused, and
gives what the run leaves. -/
theorem foldlM_insert_eq_ok_iff_answers :
    cs.foldlM insert lib = .ok lib' ↔
      (∀ answer ∈ (lib.tryInsertAll cs).1, answer = .ok ()) ∧
        lib' = (lib.tryInsertAll cs).2 := by
  induction cs generalizing lib with
  | nil =>
    rw [List.foldlM_nil, tryInsertAll]
    exact ⟨fun h => ⟨by simp, (Except.ok.inj h).symm⟩, fun h => h.2 ▸ rfl⟩
  | cons c cs ih =>
    rw [List.foldlM_cons, tryInsertAll_cons, List.forall_mem_cons]
    rcases h : lib.tryInsert c with ⟨answer, lib₁⟩
    cases answer with
    | error e =>
      -- the list ends with the first refusal
      rw [insert_of_tryInsert_eq_error h]
      constructor
      · intro hok
        cases hok
      · rintro ⟨⟨hok, -⟩, -⟩
        cases hok
    | ok done =>
      rw [insert_of_tryInsert_eq_ok h]
      exact ih.trans (and_congr_left' (and_iff_right rfl).symm)

/-- **A run of calls on an empty library**, refused or not in any mixture.
Each call is answered by what the calls before it have left: a record without
a name and one under a name that is taken are refused with the library as it
was, and any other is added. After the run the names are those of the records,
each where it first came, and under each of them stands the first record that
came with it. The same records make up a library at once exactly when no call
was refused, and then the same library. -/
theorem tryInsertAll_keeps_first (root : String) (cs : List ClassRecord) :
    ((empty root).tryInsertAll cs).1 =
        cs.mapIdx (fun i c => (((empty root).tryInsertAll (cs.take i)).2.tryInsert c).1) ∧
      (∀ before c, ((empty root).tryInsertAll (before ++ [c])).2 =
        (((empty root).tryInsertAll before).2.tryInsert c).2) ∧
      (∀ lib c,
        (c.name = "" → tryInsert lib c = (.error .missingClassName, lib)) ∧
        (c.name ∈ lib.names → tryInsert lib c = (.error (.duplicateClass c.name), lib)) ∧
        (c.name ≠ "" → c.name ∉ lib.names → (tryInsert lib c).1 = .ok ())) ∧
      ((empty root).tryInsertAll cs).2.root = root ∧
      ((empty root).tryInsertAll cs).2.names =
        ((cs.map (·.name)).filter (· ≠ "")).eraseDups ∧
      (∀ name, ((empty root).tryInsertAll cs).2.find? name =
        if name = "" then none else cs.find? (·.name = name)) ∧
      ((empty root).tryInsertAll cs).2.size =
        ((cs.map (·.name)).filter (· ≠ "")).eraseDups.length ∧
      ∀ lib', ofRecords root cs = .ok lib' ↔
        (∀ answer ∈ ((empty root).tryInsertAll cs).1, answer = .ok ()) ∧
          lib' = ((empty root).tryInsertAll cs).2 := by
  have hnames : ((empty root).tryInsertAll cs).2.names =
      ((cs.map (·.name)).filter (· ≠ "")).eraseDups := by
    rw [names_tryInsertAll]
    simp [names, empty, Table.keys, Table.empty]
  have hsize : ∀ lib : Library, lib.size = lib.names.length := by
    intro lib
    rw [size, Table.size, names, Table.keys, List.length_map]
  refine ⟨answers_tryInsertAll _ cs, fun before c => ?_, fun lib c => ⟨?_, ?_, ?_⟩,
    root_tryInsertAll _ cs, hnames, fun name => ?_, ?_, fun lib' => ?_⟩
  · rw [tryInsertAll_append, tryInsertAll_cons, tryInsertAll]
  · exact tryInsert_of_unnamed
  · exact tryInsert_of_taken
  · intro hname hnew
    obtain ⟨lib', h, -⟩ := tryInsert_of_new hname hnew
    rw [h]
  · rw [find?_tryInsertAll]
    exact Option.none_or
  · rw [hsize, hnames]
  · exact foldlM_insert_eq_ok_iff_answers

end Ambient.Library
