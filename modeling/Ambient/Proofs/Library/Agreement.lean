import Ambient.Proofs.Library.Ancestry
import Ambient.Proofs.Library.Resolution

/-!
# Libraries that agree below a class

Two libraries agree on a set of names (`AgreeOn`) when both have the same
records of the classes in it and these refer to nothing outside of it. A
walk that starts within the set never leaves it, so both libraries are
walked alike (`AgreeOn.walk_eq`): with the same ancestors and the same
classes to search, a member resolves to the same definition. The names that
a class leads to are such a set (`Agree.agreeOn`).
-/

namespace Ambient

namespace Library

variable {ℓ : Type} {lib lib' : Library} {S : String → Prop}
variable {next : ℓ → ClassRecord → List (ℓ × String)} {refs : List (ℓ × String)}
variable {c d : ClassRecord} {name : String}

/-- The same records for the names of a set, which the records do not
leave. -/
structure AgreeOn (S : String → Prop) (lib lib' : Library) : Prop where
  find? : ∀ name, S name → lib.find? name = lib'.find? name
  closed : ∀ name d, S name → lib.find? name = some d → ∀ ref ∈ d.referencedNames, S ref

namespace AgreeOn

/-- **A walk that starts in the set sees the same in both libraries.** -/
theorem walk_eq (h : AgreeOn S lib lib') (hnext : Follows next) (seen : List String)
    (hrefs : ∀ r ∈ refs, S r.2) : lib.walk next seen refs = lib'.walk next seen refs := by
  induction seen, refs using walk.induct lib next with
  | case1 seen => rw [walk_nil, walk_nil]
  | case2 seen label name rest hnone ih =>
    have hname : S name := hrefs _ List.mem_cons_self
    have hnone' : lib'.find? name = none := (h.find? name hname).symm.trans hnone
    rw [walk_cons_unknown hnone, walk_cons_unknown hnone',
      ih fun r hr => hrefs r (List.mem_cons_of_mem _ hr)]
  | case3 seen label name rest c hc hseen ih =>
    rw [walk_cons_seen hseen, walk_cons_seen hseen,
      ih fun r hr => hrefs r (List.mem_cons_of_mem _ hr)]
  | case4 seen label name rest c hc hnew ih =>
    have hname : S name := hrefs _ List.mem_cons_self
    have hc' : lib'.find? name = some c := (h.find? name hname).symm.trans hc
    rw [walk_cons_new hc hnew, walk_cons_new hc' hnew]
    refine congrArg _ (ih fun r hr => ?_)
    rcases List.mem_append.1 hr with hr | hr
    · exact h.closed name c hname hc r.2 ((hnext label c r.2).1 (List.mem_map_of_mem hr))
    · exact hrefs r (List.mem_cons_of_mem _ hr)

/-- The references of a class in the set start a walk. -/
theorem ancestry_eq (h : AgreeOn S lib lib') (hc : ∀ ref ∈ c.referencedNames, S ref) :
    lib.ancestry c = lib'.ancestry c := by
  refine h.walk_eq follows_ancestryReferences [c.name] fun r hr => hc r.2 ?_
  rw [← map_snd_references]
  exact List.mem_map_of_mem hr

theorem ancestors_eq (h : AgreeOn S lib lib') (hc : ∀ ref ∈ c.referencedNames, S ref)
    (r : Relation) : lib.ancestors r c = lib'.ancestors r c := by
  rw [ancestors, ancestors, h.ancestry_eq hc]

theorem searchOrder_eq (h : AgreeOn S lib lib') (hc : ∀ ref ∈ c.referencedNames, S ref) :
    lib.searchOrder c = lib'.searchOrder c :=
  h.walk_eq follows_searchReferences [c.name] fun r hr =>
    hc r.2 (mem_referencedNames_of_mem_start hr)

/-- So a member resolves alike. -/
theorem resolve?_eq (h : AgreeOn S lib lib') (hc : ∀ ref ∈ c.referencedNames, S ref) (s : Section)
    (name : String) : lib.resolve? c s name = lib'.resolve? c s name := by
  rw [resolve?, resolve?, h.searchOrder_eq hc]

end AgreeOn

/-! ## Below a class -/

/-- The same names, and the same records for a class and for every class that
its references lead to. -/
structure Agree (lib lib' : Library) (c : ClassRecord) : Prop where
  names : ∀ name, name ∈ lib.names ↔ name ∈ lib'.names
  self : lib.find? c.name = some c ∧ lib'.find? c.name = some c
  below : ∀ d, lib.Reaches c.name c.referencedNames d → lib'.find? d.name = some d

/-- The names that a class leads to, known or not: its own, and those that it
or a class below it refers to. -/
def LeadsTo (lib : Library) (c : ClassRecord) (name : String) : Prop :=
  name = c.name ∨ name ∈ c.referencedNames ∨
    ∃ d, lib.Reaches c.name c.referencedNames d ∧ name ∈ d.referencedNames

theorem LeadsTo.self_or_reaches (h : lib.LeadsTo c name) (hself : lib.find? c.name = some c)
    (hd : lib.find? name = some d) : d = c ∨ lib.Reaches c.name c.referencedNames d := by
  by_cases hname : name = c.name
  · rw [hname, hself] at hd
    exact .inl (Option.some.inj hd).symm
  · rcases h with h | h | ⟨e, he, h⟩
    · exact absurd h hname
    · exact .inr (.start h hd hname)
    · exact .inr (.step he h hd hname)

theorem find?_eq_none_iff : lib.find? name = none ↔ name ∉ lib.names := by
  rw [← contains_iff, contains, Option.not_isSome_iff_eq_none]

namespace Agree

theorem contains_eq (h : Agree lib lib' c) : lib.contains = lib'.contains := by
  funext name
  rw [Bool.eq_iff_iff, contains_iff, contains_iff, h.names]

/-- **What agrees below a class agrees on all it leads to.** -/
theorem agreeOn (h : Agree lib lib' c) : AgreeOn (lib.LeadsTo c) lib lib' where
  find? name hname := by
    cases hfind : lib.find? name with
    | none =>
      rw [find?_eq_none_iff, h.names, ← find?_eq_none_iff] at hfind
      exact hfind.symm
    | some d =>
      have hfind' : lib'.find? d.name = some d := by
        rcases hname.self_or_reaches h.self.1 hfind with rfl | hd
        · exact h.self.2
        · exact h.below d hd
      rw [← name_of_find? hfind, hfind']
  closed name d hname hd ref href := by
    rcases hname.self_or_reaches h.self.1 hd with rfl | hd
    · exact .inr (.inl href)
    · exact .inr (.inr ⟨d, hd, href⟩)

end Agree

end Library

end Ambient
