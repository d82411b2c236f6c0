import Ambient.Proofs.Declaration.Locality
import Ambient.Proofs.Library.Arrival

/-!
# Declarations and the order of arrival

The classes of a file are sorted, and all that is asked of a library beyond
its names is which record stands under a name. So libraries that hold the
same records have the same pieces (`filePieces_congr`), and records that
arrive in another order give the same file (`emit_eq_of_perm`).
-/

namespace Ambient

open Annotation

variable {lib lib' : Library} {aliases : Aliases} {cs cs' : List ClassRecord} {root : String}

namespace Library

theorem contains_congr (h : lib.find? = lib'.find?) : lib.contains = lib'.contains := by
  funext name
  rw [contains, contains, h]

/-- Libraries with the same records agree wherever a walk can come. -/
theorem agreeOn_of_find?_eq (h : lib.find? = lib'.find?) : AgreeOn (fun _ => True) lib lib' where
  find? name _ := congrFun h name
  closed _ _ _ _ _ _ := trivial

/-- **One order for all.** The strict order of the names leaves no choice. -/
theorem sorted_congr (h : lib.find? = lib'.find?) : lib.sorted = lib'.sorted := by
  have hlt : ∀ l : Library, l.sorted.Pairwise fun c d => c.name < d.name := fun _ =>
    List.pairwise_map.1 pairwise_sorted
  have hnodup : ∀ l : Library, l.sorted.Nodup := fun l =>
    (hlt l).imp fun hcd heq => hcd.ne (congrArg ClassRecord.name heq)
  have hperm : lib.sorted.Perm lib'.sorted := by
    refine (List.perm_ext_iff_of_nodup (hnodup lib) (hnodup lib')).2 fun c => ?_
    rw [mem_sorted_iff, mem_sorted_iff, h]
  exact hperm.eq_of_pairwise (fun c d _ _ hcd hdc => absurd hcd (String.lt_asymm hdc))
    (hlt lib) (hlt lib')

end Library

/-! ## What is asked of a library -/

/-- The same classes are described, so types map alike. -/
theorem mapType_eq_of_find?_eq (h : lib.find? = lib'.find?) :
    Mapper.mapType ⟨aliases, lib⟩ = Mapper.mapType ⟨aliases, lib'⟩ :=
  mapType_congr (Library.contains_congr h)

/-- Members resolve alike, so a class declares the same. -/
theorem ownPieces_eq_of_find?_eq (h : lib.find? = lib'.find?) :
    ownPieces ⟨aliases, lib⟩ = ownPieces ⟨aliases, lib'⟩ := by
  funext c
  refine ownPieces_congr (mapType_eq_of_find?_eq h) ?_
  funext s name
  exact (Library.agreeOn_of_find?_eq h).resolve?_eq (fun _ _ => trivial) s name

/-- Its ancestry files the same mixins, so its body is the same. -/
theorem classBody_eq_of_find?_eq (h : lib.find? = lib'.find?) :
    classBody ⟨aliases, lib⟩ = classBody ⟨aliases, lib'⟩ := by
  have hown : ownPieces ⟨aliases, lib⟩ = ownPieces ⟨aliases, lib'⟩ := ownPieces_eq_of_find?_eq h
  funext c
  have hmixins : lib.ancestors .mixin c = lib'.ancestors .mixin c :=
    (Library.agreeOn_of_find?_eq h).ancestors_eq (fun _ _ => trivial) .mixin
  rw [classBody, classBody]
  dsimp only
  rw [← hmixins]
  exact bodyPieces_congr (fun d _ => congrFun hown d) [c.name] (congrFun hown c)

theorem classPieces_eq_of_find?_eq (h : lib.find? = lib'.find?) :
    classPieces ⟨aliases, lib⟩ = classPieces ⟨aliases, lib'⟩ := by
  funext link b c
  rw [classPieces, classPieces, classHead_congr (mapType_eq_of_find?_eq h),
    constructorParams?_congr (mapType_eq_of_find?_eq h), classBody_eq_of_find?_eq h]

/-- **The pieces of a file depend on the records alone**, and with a fixed
time of generation not on when they are written. -/
theorem filePieces_congr {config : Config} {time : String} (hroot : lib.root = lib'.root)
    (h : lib.find? = lib'.find?) (htime : config.timestamp = some time)
    (cwd now now' template : String) :
    filePieces cwd now config lib template = filePieces cwd now' config lib' template := by
  have hheading : headingPiece now config = headingPiece now' config := by
    rw [headingPiece, headingPiece, htime, Option.getD_some, Option.getD_some]
  rw [filePieces, filePieces, declarationPieces, declarationPieces, mapperOf, mapperOf, hroot,
    hheading, classPieces_eq_of_find?_eq h, Library.sorted_congr h]

/-! ## Another order -/

/-- **The order of arrival does not show.** Records that make up a library do
so in any order, and under a configuration with a fixed time of generation
the same text is emitted, or the same failure, whenever that is. -/
theorem emit_eq_of_perm (h : cs.Perm cs') (hlib : Library.ofRecords root cs = .ok lib) :
    ∃ lib', Library.ofRecords root cs' = .ok lib' ∧
      ∀ config time, config.timestamp = some time → ∀ now now' fs,
        emit now config lib fs = emit now' config lib' fs := by
  obtain ⟨lib', hlib', hroot, hfind⟩ := Library.exists_ofRecords_of_perm h hlib
  refine ⟨lib', hlib', fun config time htime now now' fs => ?_⟩
  have hpieces (cwd template : String) :
      filePieces cwd now config lib template = filePieces cwd now' config lib' template :=
    filePieces_congr hroot hfind htime cwd now now' template
  simp only [emit, hpieces]

/-- A class before the mixin that it includes, and behind it: the libraries
list them in different orders and are emitted alike, early or late. -/
theorem emit_includedFirst :
    [including, included].Perm [included, including] ∧
      (Config.default.withTimestamp "T").timestamp = some "T" ∧
      ∃ lib, Library.ofRecords "" [including, included] = .ok lib ∧ lib.names = ["a.C", "a.M"] ∧
        ∃ lib', Library.ofRecords "" [included, including] = .ok lib' ∧
          lib'.names = ["a.M", "a.C"] ∧
          ∀ fs, emit "early" (Config.default.withTimestamp "T") lib fs =
            emit "late" (Config.default.withTimestamp "T") lib' fs := by
  have hperm : [including, included].Perm [included, including] := .swap _ _ _
  have htime : (Config.default.withTimestamp "T").timestamp = some "T" := rfl
  obtain ⟨lib, hlib⟩ : ∃ lib, Library.ofRecords "" [including, included] = .ok lib :=
    Library.exists_ofRecords_eq_ok (by decide) (by decide)
  obtain ⟨lib', hlib', hemit⟩ := emit_eq_of_perm hperm hlib
  refine ⟨hperm, htime, lib, hlib, ?_, lib', hlib', ?_, hemit _ "T" htime _ _⟩
  · rw [Library.names, Table.keys, (Library.ofRecords_eq_ok_iff.1 hlib).2.2.2]
    rfl
  · rw [Library.names, Table.keys, (Library.ofRecords_eq_ok_iff.1 hlib').2.2.2]
    rfl

end Ambient
