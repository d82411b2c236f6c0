import Mathlib.Logic.Relation
import Ambient.Proofs.Library.Ancestry

/-!
# How the ancestry of a class is divided

The tables of the ancestry divide what a class can reach
(`ancestors_partition`). A known class that a chain of references leads to
is filed in one of them, once, with its own record; the class itself, names
that nobody describes and classes out of reach are filed nowhere. A chain
may come back to the class it starts from, since what is behind that can be
reached without it (`transGen_refersTo_iff`).
-/

namespace Ambient

namespace Library

variable {lib : Library} {c d : ClassRecord} {name : String} {r : Relation}

/-- One class refers to another that the library describes. -/
def RefersTo (lib : Library) (c d : ClassRecord) : Prop :=
  ∃ name ∈ c.referencedNames, lib.find? name = some d

/-- What a table of the ancestry has under a name. -/
def filed (lib : Library) (r : Relation) (c : ClassRecord) (name : String) : List ClassRecord :=
  (lib.ancestors r c).filter (·.name = name)

/-! ## Chains of references -/

theorem find?_of_transGen (h : Relation.TransGen lib.RefersTo c d) :
    lib.find? d.name = some d := by
  obtain ⟨b, -, name, -, hd⟩ := Relation.TransGen.tail'_iff.1 h
  exact (name_of_find? hd).symm ▸ hd

/-- **What a chain leads to is reached without the class it starts from**,
unless it is that class. -/
theorem transGen_refersTo_iff (hc : lib.find? c.name = some c) :
    (d.name ≠ c.name ∧ Relation.TransGen lib.RefersTo c d) ↔
      lib.Reaches c.name c.referencedNames d := by
  constructor
  · rintro ⟨hne, h⟩
    induction h with
    | single href =>
      obtain ⟨name, hname, hd⟩ := href
      exact .start hname hd (name_of_find? hd ▸ hne)
    | @tail b d hb href ih =>
      obtain ⟨name, hname, hd⟩ := href
      have havoid : name ≠ c.name := name_of_find? hd ▸ hne
      -- where the chain comes back to the class, it could as well start
      by_cases hback : b.name = c.name
      · have hb : lib.find? c.name = some b := hback ▸ find?_of_transGen hb
        obtain rfl : c = b := Option.some.inj (hc.symm.trans hb)
        exact .start hname hd havoid
      · exact .step (ih hback) hname hd havoid
  · intro h
    refine ⟨h.find?_and_ne.2, ?_⟩
    induction h with
    | start hname hd _ => exact .single ⟨_, hname, hd⟩
    | step _ hname hd _ ih => exact ih.tail ⟨_, hname, hd⟩

/-! ## The entries of a name -/

/-- With distinct names a class is alone under its own. -/
theorem filter_name_of_mem {es : List (Relation × ClassRecord)}
    (hdistinct : (es.map (·.2.name)).Nodup) {e : Relation × ClassRecord} (he : e ∈ es) :
    es.filter (·.2.name = e.2.name) = [e] := by
  induction es with
  | nil => cases he
  | cons e' es ih =>
    rw [List.map_cons, List.nodup_cons] at hdistinct
    have hother {x y : Relation × ClassRecord} (hx : x ∈ es) (hy : e' = y)
        (hname : x.2.name = y.2.name) : False :=
      hdistinct.1 (List.mem_map.2 ⟨x, hx, hy ▸ hname⟩)
    rcases List.mem_cons.1 he with rfl | he
    · rw [List.filter_cons_of_pos (by simp), List.filter_eq_nil_iff.2]
      intro x hx hname
      exact hother hx rfl (of_decide_eq_true hname)
    · have hne : ¬ e'.2.name = e.2.name := fun hname => hother he rfl hname.symm
      rw [List.filter_cons_of_neg (by simpa using hne), ih hdistinct.2 he]

/-- Looking for a name and choosing a table can change places. -/
theorem filed_eq :
    lib.filed r c name =
      ((lib.ancestry c).filter (·.2.name = name)).filterMap
        fun (r', d) => if r' = r then some d else none := by
  rw [filed, ancestors]
  induction lib.ancestry c with
  | nil => rfl
  | cons e es ih =>
    by_cases hr : e.1 = r <;> by_cases hname : e.2.name = name <;> simp [hr, hname, ih]

/-- A class of the ancestry is filed under its relation and no other. -/
theorem filed_of_mem_ancestry (h : (r, d) ∈ lib.ancestry c) (r' : Relation) :
    lib.filed r' c d.name = if r = r' then [d] else [] := by
  rw [filed_eq, filter_name_of_mem nodup_names_ancestry h]
  by_cases hr : r = r' <;> simp [hr]

theorem filed_eq_nil
    (h : ∀ d, lib.find? name = some d → ¬ lib.Reaches c.name c.referencedNames d) :
    lib.filed r c name = [] := by
  rw [filed, List.filter_eq_nil_iff]
  intro d hd hname
  have hreach := reaches_of_mem_ancestors hd
  exact h d (of_decide_eq_true hname ▸ hreach.find?_and_ne.1) hreach

/-- **The ancestry of a class divides what the class can reach.** A known
class other than the class itself that a chain of references leads to is
the only entry of its name in one table and has none in the others. The
class itself, a name that the library does not describe and a class out of
reach have no entry in any. -/
theorem ancestors_partition (hc : lib.find? c.name = some c) (name : String) :
    (∀ d, lib.find? name = some d → name ≠ c.name → Relation.TransGen lib.RefersTo c d →
      ∃ r, lib.filed r c name = [d] ∧ ∀ r', r' ≠ r → lib.filed r' c name = []) ∧
    (name = c.name ∨ lib.find? name = none ∨
        (∃ d, lib.find? name = some d ∧ ¬ Relation.TransGen lib.RefersTo c d) →
      ∀ r, lib.filed r c name = []) := by
  constructor
  · intro d hd hne hchain
    obtain rfl := name_of_find? hd
    obtain ⟨r, hr⟩ := exists_mem_ancestry_iff.2 ((transGen_refersTo_iff hc).1 ⟨hne, hchain⟩)
    refine ⟨r, by rw [filed_of_mem_ancestry hr, if_pos rfl], fun r' hr' => ?_⟩
    rw [filed_of_mem_ancestry hr, if_neg hr'.symm]
  · intro h r
    refine filed_eq_nil fun d hd hreach => ?_
    obtain ⟨hne, hchain⟩ := (transGen_refersTo_iff hc).2 hreach
    rcases h with rfl | hunknown | ⟨e, he, hout⟩
    · exact hne (name_of_find? hd)
    · rw [hunknown] at hd
      cases hd
    · obtain rfl : e = d := Option.some.inj (he.symm.trans hd)
      exact hout hchain

/-- A class that includes mixins. -/
def including (name : String) (mixins : List String) : ClassRecord :=
  { (default : ClassRecord) with name := name, kind := .mixin, mixins := mixins }

/-- Two mixins that include each other. One lists the other twice, and a
name that nobody describes. -/
def entwined : Library where
  root := ""
  classes := .ofList
    [("a.C", including "a.C" ["a.M", "a.U", "a.M"]), ("a.M", including "a.M" ["a.C"])]
  named := by decide

/-- The other mixin is filed once; the one that the chain comes back to and
the unknown name are not. -/
theorem ancestors_partition_entwined :
    entwined.find? "a.C" = some (including "a.C" ["a.M", "a.U", "a.M"]) ∧
      (∃ r, entwined.filed r (including "a.C" ["a.M", "a.U", "a.M"]) "a.M" =
          [including "a.M" ["a.C"]] ∧
        ∀ r', r' ≠ r → entwined.filed r' (including "a.C" ["a.M", "a.U", "a.M"]) "a.M" = []) ∧
      (∀ r, entwined.filed r (including "a.C" ["a.M", "a.U", "a.M"]) "a.C" = []) ∧
      ∀ r, entwined.filed r (including "a.C" ["a.M", "a.U", "a.M"]) "a.U" = [] := by
  have hself : entwined.find? "a.C" = some (including "a.C" ["a.M", "a.U", "a.M"]) := rfl
  have hother : entwined.find? "a.M" = some (including "a.M" ["a.C"]) := rfl
  have hrefers : entwined.RefersTo (including "a.C" ["a.M", "a.U", "a.M"])
      (including "a.M" ["a.C"]) := ⟨"a.M", by decide, hother⟩
  exact ⟨hself,
    (ancestors_partition hself "a.M").1 _ hother (by decide) (.single hrefers),
    (ancestors_partition hself "a.C").2 (.inl rfl),
    (ancestors_partition hself "a.U").2 (.inr (.inl rfl))⟩

end Library

end Ambient
