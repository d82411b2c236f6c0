import Ambient.Library.Resolve
import Ambient.Proofs.Library.Search

/-!
# What a member resolves to

The search for the types of a member keeps one record of the classes it has
seen, over all of its branches. This file relates it to two descriptions
that know no such record. By `resolve?_eq_byPrecedence` it finds what the
order of precedence alone would find, read depth first along paths without
a repetition; by `exists_resolution_of_declared` it finds a definition exactly when
a class that carries one can be reached, and the override mark tells on
which side.
-/

namespace Ambient

/-- The superclasses to search last; those of an interface are searched as
interfaces. -/
def ClassRecord.parentNames (c : ClassRecord) : List String :=
  if c.isInterface then [] else c.superNames

namespace Library

variable {lib : Library} {c d : ClassRecord} {s : Section} {member name : String}
variable {path : List String} {own : Definition} {inherited : Bool}

/-! ## The order of precedence -/

/-- The first substantial definition at or below a class: its own, else the
first below its interfaces, then its mixins, then its superclasses. `path`
holds the classes on the way there, and none of them is entered again. -/
def firstSubstantial? (lib : Library) (s : Section) (member : String) (path : List String)
    (name : String) : Option Definition :=
  match _h : lib.find? name with
  | none => none
  | some d =>
    if _hpath : name ∈ path then none
    else
      ((substantial? s member d).or
        (d.interfaceNames.findSome? fun n => lib.firstSubstantial? s member (name :: path) n)).or
        ((d.mixins.findSome? fun n => lib.firstSubstantial? s member (name :: path) n).or
          (d.parentNames.findSome? fun n => lib.firstSubstantial? s member (name :: path) n))
  termination_by (lib.unseen path).length
  decreasing_by all_goals exact length_unseen_cons_lt (mem_names_of_find? _h) _hpath

/-- What a member with the definition `own` resolves to by precedence: its
own definition, one found through the interfaces, and as an override one
found through the mixins or else the superclasses. -/
def byPrecedence (lib : Library) (c : ClassRecord) (s : Section) (member : String)
    (own : Definition) : Resolution :=
  if own.isSubstantial then ⟨own, false⟩
  else
    match c.interfaceNames.findSome? (lib.firstSubstantial? s member [c.name]),
      c.mixins.findSome? (lib.firstSubstantial? s member [c.name]),
      c.parentNames.findSome? (lib.firstSubstantial? s member [c.name]) with
    | some definition, _, _ => ⟨definition, false⟩
    | none, some definition, _ => ⟨definition, true⟩
    | none, none, some definition => ⟨definition, true⟩
    | none, none, none => ⟨own, false⟩

/-! ## The two sides of the search -/

/-- The references of a class as the search reads them. -/
def searchReferences (inherited : Bool) (c : ClassRecord) : List (Bool × String) :=
  (c.interfaceNames ++ c.inheritedNames).map (inherited, ·)

theorem follows_searchReferences : Follows searchReferences := by
  intro inherited c name
  cases hi : c.isInterface <;>
    simp [searchReferences, ClassRecord.interfaceNames, ClassRecord.inheritedNames,
      ClassRecord.referencedNames, hi] <;> grind

/-- The classes searched through the interfaces of a class. -/
def viaInterfaces (lib : Library) (c : ClassRecord) : List (Bool × ClassRecord) :=
  lib.walk searchReferences [c.name] (c.interfaceNames.map (false, ·))

/-- The classes searched through its mixins and superclasses after that. -/
def viaInheritance (lib : Library) (c : ClassRecord) : List (Bool × ClassRecord) :=
  lib.walk searchReferences
    (lib.seenAfter searchReferences [c.name] (c.interfaceNames.map (false, ·)))
    (c.inheritedNames.map (true, ·))

theorem searchOrder_eq : lib.searchOrder c = lib.viaInterfaces c ++ lib.viaInheritance c :=
  walk_append _ _

/-- The search begins with what the class refers to, whatever the labels. -/
theorem mem_referencedNames_of_mem_start {r : Bool × String}
    (hr : r ∈ c.interfaceNames.map (false, ·) ++ c.inheritedNames.map (true, ·)) :
    r.2 ∈ c.referencedNames := by
  have hname : r.2 ∈ c.interfaceNames ++ c.inheritedNames := by
    rcases List.mem_append.1 hr with hr | hr <;> obtain ⟨name, hname, rfl⟩ := List.mem_map.1 hr
    · exact List.mem_append_left _ hname
    · exact List.mem_append_right _ hname
  rw [← follows_searchReferences true c, searchReferences, List.map_map]
  exact List.mem_map.2 ⟨r.2, hname, rfl⟩

/-- Every class that is searched is reachable. -/
theorem reaches_of_mem_searchOrder {e : Bool × ClassRecord} (he : e ∈ lib.searchOrder c) :
    lib.Reaches c.name c.referencedNames e.2 :=
  reaches_of_mem_walk follows_searchReferences List.mem_cons_self
    (fun _ hr => .inl (mem_referencedNames_of_mem_start hr)) he

/-- The label of the open references is that of every class below. -/
theorem label_of_mem_walk {seen : List String} {refs : List (Bool × String)}
    (hrefs : ∀ r ∈ refs, r.1 = inherited) {e : Bool × ClassRecord}
    (he : e ∈ lib.walk searchReferences seen refs) : e.1 = inherited := by
  induction seen, refs using walk.induct lib searchReferences with
  | case1 seen => simp at he
  | case2 seen label name rest h ih =>
    rw [walk_cons_unknown h] at he
    exact ih (fun r hr => hrefs r (List.mem_cons_of_mem _ hr)) he
  | case3 seen label name rest c h hseen ih =>
    rw [walk_cons_seen hseen] at he
    exact ih (fun r hr => hrefs r (List.mem_cons_of_mem _ hr)) he
  | case4 seen label name rest c h hseen ih =>
    have hlabel : label = inherited := hrefs _ List.mem_cons_self
    rw [walk_cons_new h hseen] at he
    rcases List.mem_cons.1 he with rfl | he
    · exact hlabel
    · refine ih (fun r hr => ?_) he
      rcases List.mem_append.1 hr with hr | hr
      · obtain ⟨_, _, rfl⟩ := List.mem_map.1 hr
        exact hlabel
      · exact hrefs r (List.mem_cons_of_mem _ hr)

/-- A definition that the search settles on, with the side it was found on. -/
def Resolution.ofHit (h : Bool × Definition) : Resolution := ⟨h.2, h.1⟩

/-- A declared member without types of its own resolves to the first hit on
the side of the interfaces, else to the first on the other side. -/
theorem resolve?_of_not_substantial (h : c.definition? s member = some own)
    (hown : ¬ own.isSubstantial) :
    lib.resolve? c s member =
      some ((((firstHit (substantial? s member) (lib.viaInterfaces c)).or
        (firstHit (substantial? s member) (lib.viaInheritance c))).map
          Resolution.ofHit).getD ⟨own, false⟩) := by
  rw [← firstHit_append, ← searchOrder_eq, resolve?, h, Option.map_some, if_neg hown]
  simp only [firstHit, List.map_findSome?, Function.comp_def, Option.map_map, Resolution.ofHit]

/-! ## Resolution by precedence -/

theorem firstSubstantial?_known (h : lib.find? name = some d) (hpath : name ∉ path) :
    lib.firstSubstantial? s member path name =
      ((substantial? s member d).or
        (d.interfaceNames.findSome? (lib.firstSubstantial? s member (name :: path)))).or
        ((d.mixins.findSome? (lib.firstSubstantial? s member (name :: path))).or
          (d.parentNames.findSome? (lib.firstSubstantial? s member (name :: path)))) := by
  rw [firstSubstantial?]
  split
  · simp_all
  · rename_i d' hd'
    rw [dif_neg hpath, Option.some.inj (hd'.symm.trans h)]

/-- The plain search along the references of the records is the search by
precedence, whatever the label. -/
theorem search_searchReferences :
    lib.search searchReferences (substantial? s member) path inherited name =
      (lib.firstSubstantial? s member path name).map (inherited, ·) := by
  induction path, name using firstSubstantial?.induct lib with
  | case1 path name h => rw [search_unknown h, firstSubstantial?]; split <;> simp_all
  | case2 path name d h hpath =>
    rw [search_of_mem_path hpath, firstSubstantial?]
    split
    · rfl
    · rw [dif_pos hpath, Option.map_none]
  | case3 path name d h hpath ih =>
    rw [search_known h hpath, firstSubstantial?_known h hpath, searchReferences,
      List.findSome?_map, Option.or_assoc]
    simp only [Function.comp_def, ih, ClassRecord.inheritedNames, List.findSome?_append,
      Option.map_or, List.map_findSome?, ClassRecord.parentNames]

/-- The first hit of the whole search, side by side. -/
theorem firstHit_searchOrder :
    firstHit (substantial? s member) (lib.searchOrder c) =
      ((c.interfaceNames.findSome? (lib.firstSubstantial? s member [c.name])).map (false, ·)).or
        ((c.inheritedNames.findSome? (lib.firstSubstantial? s member [c.name])).map (true, ·)) := by
  change firstHit _ (lib.walk searchReferences _ _) = _
  rw [firstHit_walk_eq follows_searchReferences exhausted_self, List.findSome?_append]
  simp only [List.findSome?_map, Function.comp_def, search_searchReferences, List.map_findSome?]

/-- **What a member resolves to is what precedence says.** For every library,
with references that form cycles, meet again or lead nowhere, the record of
the classes seen changes nothing: a declared member gets the definition and
the override mark of the search that only avoids its own path. -/
theorem resolve?_eq_byPrecedence (lib : Library) (c : ClassRecord) (s : Section)
    (member : String) :
    lib.resolve? c s member = (c.definition? s member).map (lib.byPrecedence c s member) := by
  cases h : c.definition? s member with
  | none => rw [resolve?, h]; rfl
  | some own =>
    rw [Option.map_some, byPrecedence]
    split
    · rename_i hown
      rw [resolve?, h, Option.map_some, if_pos hown]
    · rename_i hown
      rw [resolve?_of_not_substantial h hown, ← firstHit_append, ← searchOrder_eq,
        firstHit_searchOrder, ClassRecord.inheritedNames, List.findSome?_append,
        ← ClassRecord.parentNames]
      cases c.interfaceNames.findSome? (lib.firstSubstantial? s member [c.name]) <;>
        cases c.mixins.findSome? (lib.firstSubstantial? s member [c.name]) <;>
        cases c.parentNames.findSome? (lib.firstSubstantial? s member [c.name]) <;> rfl

/-! ## Resolution by reachability -/

/-- Some class that the names lead to, without passing `avoided`, carries a
substantial definition of the member. -/
def CarriedFrom (lib : Library) (s : Section) (member avoided : String) (names : List String) :
    Prop :=
  ∃ d, lib.Reaches avoided names d ∧ (substantial? s member d).isSome

/-- The classes searched through the interfaces are those they lead to. -/
theorem exists_mem_viaInterfaces_iff :
    (∃ label, (label, d) ∈ lib.viaInterfaces c) ↔ lib.Reaches c.name c.interfaceNames d := by
  rw [viaInterfaces, exists_mem_walk_iff_reaches follows_searchReferences, List.map_map]
  simp [Function.comp_def]

/-- Those searched after that are led to by the mixins or the superclasses. -/
theorem reaches_of_mem_viaInheritance {e : Bool × ClassRecord}
    (he : e ∈ lib.viaInheritance c) : lib.Reaches c.name c.inheritedNames e.2 := by
  refine reaches_of_mem_walk follows_searchReferences
    (mem_seenAfter_of_mem_seen List.mem_cons_self) (fun r hr => .inl ?_) he
  obtain ⟨name, hname, rfl⟩ := List.mem_map.1 hr
  exact hname

/-- And what these lead to is searched, before or after. -/
theorem exists_mem_of_reaches_inheritedNames (h : lib.Reaches c.name c.inheritedNames d) :
    ∃ label, (label, d) ∈ lib.viaInterfaces c ++ lib.viaInheritance c := by
  rw [← searchOrder_eq]
  refine exists_mem_walk_of_reaches follows_searchReferences (fun name hname => ?_) h
  simp [hname]

theorem isOverride_of_mem_viaInterfaces {e : Bool × ClassRecord} (he : e ∈ lib.viaInterfaces c) :
    e.1 = false :=
  label_of_mem_walk (by simp) he

theorem isOverride_of_mem_viaInheritance {e : Bool × ClassRecord}
    (he : e ∈ lib.viaInheritance c) : e.1 = true :=
  label_of_mem_walk (by simp) he

/-- A hit comes from a class that was searched. -/
theorem exists_of_firstHit_eq_some {es : List (Bool × ClassRecord)} {h : Bool × Definition}
    (hfirst : firstHit (substantial? s member) es = some h) :
    ∃ d, (h.1, d) ∈ es ∧ substantial? s member d = some h.2 := by
  obtain ⟨e, he, hhit⟩ := List.exists_of_findSome?_eq_some hfirst
  obtain ⟨definition, hd, rfl⟩ := Option.map_eq_some_iff.1 hhit
  exact ⟨e.2, he, hd⟩

/-- The interfaces have a hit when they lead to a class that carries one. -/
theorem isSome_firstHit_viaInterfaces_iff :
    (firstHit (substantial? s member) (lib.viaInterfaces c)).isSome ↔
      lib.CarriedFrom s member c.name c.interfaceNames := by
  constructor
  · intro h
    obtain ⟨hit, hfirst⟩ := Option.isSome_iff_exists.1 h
    obtain ⟨d, hd, hsub⟩ := exists_of_firstHit_eq_some hfirst
    exact ⟨d, exists_mem_viaInterfaces_iff.1 ⟨_, hd⟩, by rw [hsub]; rfl⟩
  · rintro ⟨d, hd, hsub⟩
    obtain ⟨label, he⟩ := exists_mem_viaInterfaces_iff.2 hd
    rw [Option.isSome_iff_ne_none]
    exact fun hnone => by simp [firstHit_eq_none_iff.1 hnone _ he] at hsub

/-- Where the interfaces have none, the other side has a hit when the mixins
or superclasses lead to a class that carries one. -/
theorem isSome_firstHit_viaInheritance_iff
    (hnone : firstHit (substantial? s member) (lib.viaInterfaces c) = none) :
    (firstHit (substantial? s member) (lib.viaInheritance c)).isSome ↔
      lib.CarriedFrom s member c.name c.inheritedNames := by
  constructor
  · intro h
    obtain ⟨hit, hfirst⟩ := Option.isSome_iff_exists.1 h
    obtain ⟨d, hd, hsub⟩ := exists_of_firstHit_eq_some hfirst
    exact ⟨d, reaches_of_mem_viaInheritance hd, by rw [hsub]; rfl⟩
  · rintro ⟨d, hd, hsub⟩
    obtain ⟨label, he⟩ := exists_mem_of_reaches_inheritedNames hd
    rw [Option.isSome_iff_ne_none]
    intro hnone'
    rcases List.mem_append.1 he with he | he
    · simp [firstHit_eq_none_iff.1 hnone _ he] at hsub
    · simp [firstHit_eq_none_iff.1 hnone' _ he] at hsub

theorem substantial?_eq_some_iff {definition : Definition} :
    substantial? s member d = some definition ↔
      d.definition? s member = some definition ∧ definition.isSubstantial := by
  rw [substantial?, Option.filter_eq_some_iff]

/-- A declared name resolves to its own definition or, when that has no types,
to one with types in a class that is searched. -/
theorem definition_of_resolve? {r : Resolution} (h : c.definition? s member = some own)
    (hr : lib.resolve? c s member = some r) :
    r.definition = own ∨ ¬ own.isSubstantial ∧ r.definition.isSubstantial ∧
      ∃ d, lib.Reaches c.name c.referencedNames d ∧ d.definition? s member = some r.definition := by
  by_cases hown : own.isSubstantial
  · rw [resolve?, h, Option.map_some, if_pos hown] at hr
    exact .inl (Option.some.inj hr ▸ rfl)
  · rw [resolve?_of_not_substantial h hown, ← firstHit_append, ← searchOrder_eq,
      Option.some.injEq] at hr
    subst hr
    cases hfirst : firstHit (substantial? s member) (lib.searchOrder c) with
    | none => exact .inl rfl
    | some hit =>
      obtain ⟨d, hd, hsub⟩ := exists_of_firstHit_eq_some hfirst
      obtain ⟨hdefined, hsubstantial⟩ := substantial?_eq_some_iff.1 hsub
      exact .inr ⟨hown, hsubstantial, d, reaches_of_mem_searchOrder hd, hdefined⟩

/-- **Nothing typed that can be reached is missed.** A declared member with
types of its own keeps them. Any other gets a definition that is no override
exactly when the interfaces lead to a class that carries one, else an
override exactly when the mixins or superclasses do, else its own; and the
definition it gets is that of a class on the side that the mark tells. -/
theorem exists_resolution_of_declared (h : c.definition? s member = some own) :
    ∃ r, lib.resolve? c s member = some r ∧
      (own.isSubstantial → r = ⟨own, false⟩) ∧
      (¬ own.isSubstantial →
        ((r.definition.isSubstantial ∧ r.isOverride = false) ↔
          lib.CarriedFrom s member c.name c.interfaceNames) ∧
        (¬ lib.CarriedFrom s member c.name c.interfaceNames →
          ((r.definition.isSubstantial ∧ r.isOverride = true) ↔
            lib.CarriedFrom s member c.name c.inheritedNames)) ∧
        (¬ lib.CarriedFrom s member c.name c.interfaceNames →
          ¬ lib.CarriedFrom s member c.name c.inheritedNames → r = ⟨own, false⟩) ∧
        (r.definition.isSubstantial →
          ∃ d, lib.Reaches c.name
              (if r.isOverride then c.inheritedNames else c.interfaceNames) d ∧
            d.definition? s member = some r.definition)) := by
  by_cases hown : own.isSubstantial
  · refine ⟨⟨own, false⟩, ?_, fun _ => rfl, fun hn => absurd hown hn⟩
    rw [resolve?, h, Option.map_some, if_pos hown]
  refine ⟨_, resolve?_of_not_substantial h hown, fun hs => absurd hs hown, fun _ => ?_⟩
  rw [← isSome_firstHit_viaInterfaces_iff]
  cases hi : firstHit (substantial? s member) (lib.viaInterfaces c) with
  | some hit =>
    -- found through the interfaces
    obtain ⟨d, he, hsub⟩ := exists_of_firstHit_eq_some hi
    obtain ⟨hd, hsubstantial⟩ := substantial?_eq_some_iff.1 hsub
    have hmark : hit.1 = false := isOverride_of_mem_viaInterfaces he
    have hreach := exists_mem_viaInterfaces_iff.1 ⟨_, he⟩
    simp only [Option.some_or, Option.map_some, Option.getD_some, Resolution.ofHit, hmark]
    exact ⟨⟨fun _ => rfl, fun _ => ⟨hsubstantial, trivial⟩⟩, fun hn => absurd rfl hn,
      fun hn => absurd rfl hn, fun _ => ⟨d, hreach, hd⟩⟩
  | none =>
    rw [← isSome_firstHit_viaInheritance_iff hi]
    cases hm : firstHit (substantial? s member) (lib.viaInheritance c) with
    | some hit =>
      -- found through the mixins or the superclasses
      obtain ⟨d, he, hsub⟩ := exists_of_firstHit_eq_some hm
      obtain ⟨hd, hsubstantial⟩ := substantial?_eq_some_iff.1 hsub
      have hmark : hit.1 = true := isOverride_of_mem_viaInheritance he
      have hreach := reaches_of_mem_viaInheritance he
      simp only [Option.none_or, Option.map_some, Option.getD_some, Resolution.ofHit, hmark]
      exact ⟨⟨fun hr => absurd hr.2 (by simp), fun hn => absurd hn (by simp)⟩,
        fun _ => ⟨fun _ => rfl, fun _ => ⟨hsubstantial, trivial⟩⟩,
        fun _ hn => absurd rfl hn, fun _ => ⟨d, hreach, hd⟩⟩
    | none =>
      simp [hown]

/-- A member that says nothing of its types. -/
def untyped : Member where
  kind := .function
  access := .unspecified
  isStatic := false
  isAbstract := false
  isAsync := false
  fromMixin := false
  params := none
  returnType := none
  doc := []

/-- A class that includes mixins and declares one member, `go`. -/
def going (name : String) (mixins : List String) (go : Member) : ClassRecord :=
  { (default : ClassRecord) with
    name := name, kind := .plain, mixins := mixins, members := .ofList [("go", go)] }

/-- A class and its mixin that include each other. -/
def cyclic : Library where
  root := ""
  classes := (Table.empty.insert "a.C" (going "a.C" ["a.M"] untyped)).insert "a.M"
    (going "a.M" ["a.C"] { untyped with returnType := some (.named "String") })
  named := by
    intro e he
    rcases mem_upsert he with rfl | he
    · exact ⟨rfl, by decide⟩
    · rcases mem_upsert he with rfl | he
      · exact ⟨rfl, by decide⟩
      · cases he

/-- The types of `go` come from the mixin, over the cycle. -/
theorem exists_resolution_cyclic :
    (going "a.C" ["a.M"] untyped).definition? .members "go" = some (.method untyped) ∧
      ∃ r, cyclic.resolve? (going "a.C" ["a.M"] untyped) .members "go" = some r ∧
        r.definition.isSubstantial ∧ r.isOverride = true := by
  have hdeclared : (going "a.C" ["a.M"] untyped).definition? .members "go" =
      some (.method untyped) := rfl
  have hlisted : "a.M" ∈ (going "a.C" ["a.M"] untyped).inheritedNames := by decide
  obtain ⟨r, hr, -, hfound⟩ := @exists_resolution_of_declared cyclic _ _ _ _ hdeclared
  obtain ⟨-, hmixins, -, -⟩ := hfound (by decide)
  refine ⟨hdeclared, r, hr, (hmixins ?_).2 ?_⟩
  · rintro ⟨d, hd, -⟩
    exact not_reaches_nil hd
  · exact ⟨_, .start hlisted rfl (by decide), rfl⟩

end Library

end Ambient
