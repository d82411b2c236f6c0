import Ambient.Library.Basic

/-!
# Records in the order of their arrival

A library is built by adding one record after the other. That succeeds when
every record has a name of its own, and the library then holds exactly the
records, in the order in which they came (`ofRecords_eq_ok_iff`). What is
found under a name does not depend on that order, and the order in which the
names are listed is all that does (`exists_ofRecords_of_perm`).
-/

namespace Ambient

/-- A key that is new comes last. -/
theorem upsert_of_notMem {α : Type} {key : String} (a : α) :
    ∀ {es : List (String × α)}, key ∉ es.map Prod.fst → upsert key a es = es ++ [(key, a)]
  | [], _ => rfl
  | e :: es, h => by
    rw [List.map_cons, List.mem_cons, not_or] at h
    rw [upsert, if_neg (Ne.symm h.1), upsert_of_notMem a h.2, List.cons_append]

namespace Library

variable {root : String} {lib lib' : Library} {c : ClassRecord} {cs cs' : List ClassRecord}

theorem ext_root_entries (hroot : lib.root = lib'.root)
    (hentries : lib.classes.entries = lib'.classes.entries) : lib = lib' := by
  obtain ⟨root, classes, named⟩ := lib
  obtain ⟨root', classes', named'⟩ := lib'
  cases hroot
  cases Table.ext_entries hentries
  rfl

/-- The entry of a record. -/
def entryOf (c : ClassRecord) : String × ClassRecord := (c.name, c)

/-- What adding one record does to the entries. -/
theorem insert_eq_ok_iff_entries :
    lib.insert c = .ok lib' ↔
      c.name ≠ "" ∧ c.name ∉ lib.names ∧ lib'.root = lib.root ∧
        lib'.classes.entries = lib.classes.entries ++ [entryOf c] := by
  rw [insert_eq_ok_iff]
  refine and_congr_right fun _ => and_congr_right fun hnew => and_congr_right fun _ => ?_
  have hentries : (lib.classes.insert c.name c).entries = lib.classes.entries ++ [entryOf c] :=
    upsert_of_notMem c hnew
  exact ⟨fun h => h ▸ hentries, fun h => Table.ext_entries (h.trans hentries.symm)⟩

/-- A record with a name that is not taken is never refused. -/
theorem exists_insert_eq_ok (hname : c.name ≠ "") (hnew : c.name ∉ lib.names) :
    ∃ lib', lib.insert c = .ok lib' := by
  obtain ⟨lib', h, -⟩ := tryInsert_of_new hname hnew
  exact ⟨lib', insert_of_tryInsert_eq_ok h⟩

/-- **What adding records does.** It succeeds when each has a name that
neither the library nor another of them bears, and then the records follow
what the library held. -/
theorem foldlM_insert_eq_ok_iff :
    cs.foldlM insert lib = .ok lib' ↔
      (∀ c ∈ cs, c.name ≠ "" ∧ c.name ∉ lib.names) ∧ (cs.map (·.name)).Nodup ∧
        lib'.root = lib.root ∧
        lib'.classes.entries = lib.classes.entries ++ cs.map entryOf := by
  induction cs generalizing lib with
  | nil =>
    rw [List.foldlM_nil, List.map_nil, List.map_nil, List.append_nil]
    constructor
    · intro h
      cases h
      exact ⟨by simp, List.nodup_nil, rfl, rfl⟩
    · rintro ⟨-, -, hroot, hentries⟩
      exact congrArg _ (ext_root_entries hroot hentries).symm
  | cons c cs ih =>
    have hcons : (c :: cs).foldlM insert lib = .ok lib' ↔
        ∃ lib₁, lib.insert c = .ok lib₁ ∧ cs.foldlM insert lib₁ = .ok lib' := by
      rw [List.foldlM_cons]
      cases hc : lib.insert c with
      | error e => simp [bind, Except.bind]
      | ok lib₁ => simp [bind, Except.bind]
    rw [hcons, List.forall_mem_cons, List.map_cons, List.map_cons, List.nodup_cons]
    constructor
    · rintro ⟨lib₁, hc, hcs⟩
      obtain ⟨hname, hnew, hroot, hentries⟩ := insert_eq_ok_iff_entries.1 hc
      obtain ⟨hall, hnodup, hroot', hentries'⟩ := ih.1 hcs
      rw [names_of_insert hc] at hall
      refine ⟨⟨⟨hname, hnew⟩, fun d hd => ?_⟩, ⟨?_, hnodup⟩, hroot'.trans hroot, ?_⟩
      · exact ⟨(hall d hd).1, fun h => (hall d hd).2 (List.mem_append_left _ h)⟩
      · rintro hmem
        obtain ⟨d, hd, heq⟩ := List.mem_map.1 hmem
        exact (hall d hd).2 (by simp [heq])
      · rw [hentries', hentries, List.append_assoc, List.singleton_append]
    · rintro ⟨⟨⟨hname, hnew⟩, hall⟩, ⟨hother, hnodup⟩, hroot, hentries⟩
      obtain ⟨lib₁, hc⟩ := exists_insert_eq_ok hname hnew
      obtain ⟨-, -, hroot₁, hentries₁⟩ := insert_eq_ok_iff_entries.1 hc
      refine ⟨lib₁, hc, ih.2 ⟨fun d hd => ⟨(hall d hd).1, ?_⟩, hnodup, ?_, ?_⟩⟩
      · rw [names_of_insert hc, List.mem_append, List.mem_singleton, not_or]
        exact ⟨(hall d hd).2, fun heq => hother (heq ▸ List.mem_map_of_mem hd)⟩
      · rw [hroot, hroot₁]
      · rw [hentries, hentries₁, List.append_assoc, List.singleton_append]

/-- **The library of a list of records** exists when every record has a name
of its own, and holds them in the order of the list. -/
theorem ofRecords_eq_ok_iff :
    ofRecords root cs = .ok lib ↔
      "" ∉ cs.map (·.name) ∧ (cs.map (·.name)).Nodup ∧ lib.root = root ∧
        lib.classes.entries = cs.map entryOf := by
  have hnames : (∀ c ∈ cs, c.name ≠ "" ∧ c.name ∉ (empty root).names) ↔
      "" ∉ cs.map (·.name) := by
    simp [names, empty, Table.keys, Table.empty]
  rw [ofRecords, foldlM_insert_eq_ok_iff, hnames]
  rfl

/-- Nothing else is asked of the records. -/
theorem exists_ofRecords_eq_ok (hnamed : "" ∉ cs.map (·.name)) (hnodup : (cs.map (·.name)).Nodup) :
    ∃ lib, ofRecords root cs = .ok lib := by
  have hdistinct : ((cs.map entryOf).map Prod.fst).Nodup := by
    rwa [List.map_map]
  have hown : ∀ e ∈ cs.map entryOf, e.2.name = e.1 ∧ e.1 ≠ "" := by
    intro e he
    obtain ⟨c, hc, rfl⟩ := List.mem_map.1 he
    exact ⟨rfl, fun heq => hnamed (heq ▸ List.mem_map_of_mem hc)⟩
  exact ⟨⟨root, ⟨cs.map entryOf, hdistinct⟩, hown⟩,
    ofRecords_eq_ok_iff.2 ⟨hnamed, hnodup, rfl, rfl⟩⟩

/-! ## Another order -/

/-- **Records can arrive in any order.** The library of a permutation exists
too, with the same root and the same record under every name. -/
theorem exists_ofRecords_of_perm (h : cs.Perm cs') (hlib : ofRecords root cs = .ok lib) :
    ∃ lib', ofRecords root cs' = .ok lib' ∧ lib.root = lib'.root ∧ lib.find? = lib'.find? := by
  obtain ⟨hnamed, hnodup, hroot, hentries⟩ := ofRecords_eq_ok_iff.1 hlib
  have hnames : (cs.map (·.name)).Perm (cs'.map (·.name)) := h.map _
  obtain ⟨lib', hlib'⟩ : ∃ lib', ofRecords root cs' = .ok lib' :=
    exists_ofRecords_eq_ok (fun hmem => hnamed (hnames.mem_iff.2 hmem)) (hnames.nodup_iff.1 hnodup)
  obtain ⟨-, -, hroot', hentries'⟩ := ofRecords_eq_ok_iff.1 hlib'
  refine ⟨lib', hlib', hroot.trans hroot'.symm, Table.get?_eq_of_perm ?_⟩
  rw [hentries, hentries']
  exact h.map _

end Library

end Ambient
