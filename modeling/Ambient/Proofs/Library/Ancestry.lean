import Ambient.Library.Ancestry
import Ambient.Proofs.Library.Search

/-!
# Under which relation an ancestor is filed

The ancestry of a class files each class under one relation only. By
`find?_ancestors` that is the relation of the first reference that leads to
it, read depth first without any record of what was read before
(`firstRelation?`): other references to the same class, whatever their
relation, come too late.
-/

namespace Ambient

namespace Library

variable {lib : Library} {c d : ClassRecord} {name : String} {r : Relation}

/-- The references of a class as its ancestry follows them: they do not
depend on how it was reached. -/
def ancestryReferences (_ : Relation) (c : ClassRecord) : List (Relation × String) :=
  c.references

theorem map_snd_references :
    c.references.map Prod.snd = c.referencedNames := by
  simp [ClassRecord.references, ClassRecord.referencedNames, Function.comp_def]

theorem follows_ancestryReferences : Follows ancestryReferences := by
  intro _ c name
  rw [ancestryReferences, map_snd_references]

/-- The class bears the name. -/
def named? (name : String) (c : ClassRecord) : Option Unit :=
  if c.name = name then some () else none

/-- The relation of the first reference that leads from a class to a name,
when references are read depth first: superclasses before interfaces before
mixins, those of an interface all as interfaces. No class is passed twice on
one way, and nothing else is remembered. -/
def firstRelation? (lib : Library) (c : ClassRecord) (name : String) : Option Relation :=
  (c.references.findSome? fun ref =>
    lib.search ancestryReferences (named? name) [c.name] ref.1 ref.2).map Prod.fst

/-- Every class that the references lead to is an ancestor. -/
theorem exists_mem_ancestry_iff :
    (∃ r, (r, d) ∈ lib.ancestry c) ↔ lib.Reaches c.name c.referencedNames d := by
  rw [← map_snd_references]
  exact exists_mem_walk_iff_reaches follows_ancestryReferences

theorem reaches_of_mem_ancestors (h : d ∈ lib.ancestors r c) :
    lib.Reaches c.name c.referencedNames d := by
  obtain ⟨⟨r', e⟩, he, hd⟩ := List.mem_filterMap.1 h
  dsimp only at hd
  split at hd
  · cases hd
    exact exists_mem_ancestry_iff.1 ⟨r', he⟩
  · cases hd

/-- No class is filed twice. -/
theorem nodup_names_ancestry : ((lib.ancestry c).map (·.2.name)).Nodup :=
  nodup_names_walk

/-- The first hit by name is the entry of that name. -/
theorem firstHit_named {es : List (Relation × ClassRecord)} :
    (firstHit (named? name) es).map Prod.fst = (es.find? (·.2.name = name)).map Prod.fst := by
  induction es with
  | nil => rfl
  | cons e es ih =>
    rw [firstHit, List.findSome?_cons, List.find?_cons]
    by_cases h : e.2.name = name
    · simp [named?, h]
    · simpa [named?, h, firstHit] using ih

theorem firstRelation?_eq :
    lib.firstRelation? c name = ((lib.ancestry c).find? (·.2.name = name)).map Prod.fst := by
  rw [← firstHit_named, firstRelation?]
  exact congrArg _ (firstHit_walk_eq follows_ancestryReferences exhausted_self).symm

/-- With distinct names, the entry of a name survives a choice by relation
or nothing of that name does. -/
theorem find?_filterMap_relation {es : List (Relation × ClassRecord)}
    (hd : (es.map (·.2.name)).Nodup) :
    (es.filterMap fun (r', d) => if r' = r then some d else none).find? (·.name = name) =
      (es.find? (·.2.name = name)).bind fun e => if e.1 = r then some e.2 else none := by
  induction es with
  | nil => rfl
  | cons e es ih =>
    rw [List.map_cons, List.nodup_cons] at hd
    have ih := ih hd.2
    by_cases hname : e.2.name = name
    · by_cases hr : e.1 = r
      · simp [hname, hr]
      · -- the only entry of this name is filed elsewhere
        have hnone : es.find? (·.2.name = name) = none := by
          rw [List.find?_eq_none]
          intro e' he' hname'
          refine hd.1 (List.mem_map.2 ⟨e', he', ?_⟩)
          rw [hname, of_decide_eq_true hname']
        rw [hnone] at ih
        simp [hname, hr, ih]
    · by_cases hr : e.1 = r
      · simp [hname, hr, ih]
      · simp [hname, hr, ih]

/-- **A class is filed under the first relation that leads to it**, and found
there by its name; it is not found under any other. -/
theorem find?_ancestors :
    (lib.ancestors r c).find? (·.name = name) =
      if lib.firstRelation? c name = some r then lib.find? name else none := by
  rw [ancestors, find?_filterMap_relation nodup_names_ancestry, firstRelation?_eq]
  cases hfind : (lib.ancestry c).find? (·.2.name = name) with
  | none => simp
  | some e =>
    have he := List.mem_of_find?_eq_some hfind
    have hname : e.2.name = name := by simpa using List.find?_some hfind
    have hknown : lib.find? name = some e.2 := hname ▸ find?_of_mem_walk he
    simp [hknown]

/-- Some reference leads first to a class that is reachable. -/
theorem exists_firstRelation?_of_reaches (h : lib.Reaches c.name c.referencedNames d) :
    ∃ r, lib.firstRelation? c d.name = some r := by
  obtain ⟨r, hr⟩ := exists_mem_ancestry_iff.2 h
  rw [firstRelation?_eq]
  cases hfind : (lib.ancestry c).find? (·.2.name = d.name) with
  | none => exact absurd (decide_eq_true rfl) (List.find?_eq_none.1 hfind _ hr)
  | some e => exact ⟨e.1, rfl⟩

end Library

end Ambient
