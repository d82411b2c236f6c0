import Ambient.Proofs.Library.Ancestry
import Ambient.Proofs.Library.Resolution

/-!
# What a class passes on

Other classes read of a record what it refers to, and of its members the
types, the kind, the visibility, and whether a property is asynchronous. The
outline of a record keeps that and drops the rest: marks, documentation,
constructor, events, source file. Libraries with the same outlines are walked
alike up to outlines (`SameOutlines.map_walk`), so a class has the same
ancestry in both and a member resolves to definitions with the same outline
(`SameOutlines.map_resolve?`).
-/

namespace Ambient

variable {α β : Type}

/-- The table with its values replaced. -/
def Table.map (f : α → β) (t : Table α) : Table β where
  entries := t.entries.map fun e => (e.1, f e.2)
  distinct := by
    rw [List.map_map]
    exact t.distinct

theorem Table.get?_map (f : α → β) (t : Table α) (key : String) :
    (t.map f).get? key = (t.get? key).map f := by
  refine Option.ext fun b => ?_
  rw [get?_eq_some_iff, Option.map_eq_some_iff]
  constructor
  · intro h
    obtain ⟨⟨k, a⟩, ha, heq⟩ := List.mem_map.1 h
    cases heq
    exact ⟨a, get?_eq_some_iff.2 ha, rfl⟩
  · rintro ⟨a, ha, rfl⟩
    exact List.mem_map.2 ⟨(key, a), get?_eq_some_iff.1 ha, rfl⟩

/-! ## Outlines -/

/-- Of a member: its kind, its visibility and its types. -/
def Member.outline (x : Member) : Member :=
  { x with isStatic := false, isAbstract := false, isAsync := false, fromMixin := false, doc := [] }

/-- Of a property: its type, its visibility and whether it is asynchronous. -/
def Property.outline (p : Property) : Property :=
  { p with isGroup := false, doc := [] }

/-- Members have the same outline when these are the same. -/
theorem Member.outline_eq_iff {x y : Member} :
    x.outline = y.outline ↔
      x.kind = y.kind ∧ x.access = y.access ∧ x.params = y.params ∧
        x.returnType = y.returnType := by
  simp [outline]

theorem Property.outline_eq_iff {p q : Property} :
    p.outline = q.outline ↔ p.check = q.check ∧ p.isAsync = q.isAsync ∧ p.access = q.access := by
  simp [outline]

def Definition.outline : Definition → Definition
  | .method x => .method x.outline
  | .property p => .property p.outline

def Resolution.outline (r : Resolution) : Resolution :=
  { r with definition := r.definition.outline }

/-- Of a class: its name and kind, what it refers to, and the outlines of its
members. -/
def ClassRecord.outline (c : ClassRecord) : ClassRecord :=
  { c with
    isAbstract := false, isSingleton := false, construct := none
    statics := c.statics.map Member.outline
    members := c.members.map Member.outline
    properties := c.properties.map Property.outline
    events := .empty, filename := none }

/-- A walk reads of a record what it refers to. -/
theorem ClassRecord.references_outline (c : ClassRecord) : c.outline.references = c.references :=
  rfl

theorem Definition.isSubstantial_outline (x : Definition) :
    x.outline.isSubstantial = x.isSubstantial := by
  cases x <;> rfl

theorem ClassRecord.definition?_outline (c : ClassRecord) (s : Section) (name : String) :
    c.outline.definition? s name = (c.definition? s name).map Definition.outline := by
  cases s <;>
    simp only [definition?, outline, Table.get?_map, Option.map_map, Function.comp_def,
      Definition.outline]

namespace Library

variable {ℓ : Type} {lib lib' : Library} {next : ℓ → ClassRecord → List (ℓ × String)}
variable {refs : List (ℓ × String)} {c : ClassRecord} {s : Section} {name : String}

/-- A definition is substantial by what its outline keeps. -/
theorem substantial?_outline (s : Section) (name : String) (c : ClassRecord) :
    substantial? s name c.outline = (substantial? s name c).map Definition.outline := by
  rw [substantial?, substantial?, ClassRecord.definition?_outline]
  cases c.definition? s name with
  | none => rfl
  | some x =>
    simp only [Option.map_some, Option.filter_some, Definition.isSubstantial_outline]
    split <;> rfl

/-- An entered class, by its outline. -/
def outlined (e : ℓ × ClassRecord) : ℓ × ClassRecord := (e.1, e.2.outline)

/-- What the search for a member finds at an entered class. -/
def hitAt (s : Section) (name : String) (e : Bool × ClassRecord) : Option Resolution :=
  (substantial? s name e.2).map (Resolution.mk · e.1)

theorem resolve?_eq_hitAt : lib.resolve? c s name = (c.definition? s name).map fun own =>
    if own.isSubstantial then ⟨own, false⟩
    else ((lib.searchOrder c).findSome? (hitAt s name)).getD ⟨own, false⟩ := rfl

theorem map_hitAt (e : Bool × ClassRecord) :
    (hitAt s name e).map Resolution.outline = hitAt s name (outlined e) := by
  rw [hitAt, hitAt, outlined, substantial?_outline, Option.map_map, Option.map_map]
  rfl

/-- The first hit of a search is that of the search among the outlines. -/
theorem map_findSome?_hitAt (es : List (Bool × ClassRecord)) :
    (es.findSome? (hitAt s name)).map Resolution.outline =
      (es.map outlined).findSome? (hitAt s name) := by
  rw [List.map_findSome?, List.findSome?_map]
  exact congrArg (List.findSome? · es) (funext map_hitAt)

/-- The same root, and under every name a record with the same outline, or
none in both. -/
structure SameOutlines (lib lib' : Library) : Prop where
  root : lib.root = lib'.root
  find? : ∀ name, (lib.find? name).map ClassRecord.outline =
    (lib'.find? name).map ClassRecord.outline

namespace SameOutlines

theorem contains_eq (h : SameOutlines lib lib') : lib.contains = lib'.contains := by
  funext name
  rw [contains, contains, ← Option.isSome_map, h.find?, Option.isSome_map]

/-- **A walk that follows outlines sees the same outlines.** -/
theorem map_walk (h : SameOutlines lib lib')
    (hnext : ∀ label d, next label d.outline = next label d) (seen : List String) :
    (lib.walk next seen refs).map outlined = (lib'.walk next seen refs).map outlined := by
  induction seen, refs using walk.induct lib next with
  | case1 seen => rw [walk_nil, walk_nil]
  | case2 seen label name rest hnone ih =>
    have hnone' : lib'.find? name = none := by
      rw [← Option.map_eq_none_iff (f := ClassRecord.outline), ← h.find?, hnone, Option.map_none]
    rw [walk_cons_unknown hnone, walk_cons_unknown hnone', ih]
  | case3 seen label name rest d hd hseen ih =>
    rw [walk_cons_seen hseen, walk_cons_seen hseen, ih]
  | case4 seen label name rest d hd hnew ih =>
    obtain ⟨d', hd', heq⟩ : ∃ d', lib'.find? name = some d' ∧ d'.outline = d.outline := by
      rw [← Option.map_eq_some_iff, ← h.find?, hd, Option.map_some]
    have hrefs : next label d' = next label d := by
      rw [← hnext label d', heq, hnext]
    rw [walk_cons_new hd hnew, walk_cons_new hd' hnew, List.map_cons, List.map_cons, ih, hrefs,
      outlined, outlined, heq]

theorem map_ancestry (h : SameOutlines lib lib') :
    (lib.ancestry c).map outlined = (lib'.ancestry c).map outlined :=
  h.map_walk (fun _ d => d.references_outline) [c.name]

theorem map_searchOrder (h : SameOutlines lib lib') :
    (lib.searchOrder c).map outlined = (lib'.searchOrder c).map outlined :=
  h.map_walk (fun _ _ => rfl) [c.name]

/-- A class is reached first by the same relation. -/
theorem firstRelation?_eq (h : SameOutlines lib lib') :
    lib.firstRelation? c name = lib'.firstRelation? c name := by
  have hfind : ∀ l : Library, ((l.ancestry c).find? (·.2.name = name)).map Prod.fst =
      (((l.ancestry c).map outlined).find? (·.2.name = name)).map Prod.fst := by
    intro l
    rw [List.find?_map, Option.map_map]
    rfl
  rw [Library.firstRelation?_eq, Library.firstRelation?_eq, hfind, hfind, h.map_ancestry]

/-- **A member resolves to the same outline.** -/
theorem map_resolve? (h : SameOutlines lib lib') (c : ClassRecord) (s : Section) (name : String) :
    (lib.resolve? c s name).map Resolution.outline =
      (lib'.resolve? c s name).map Resolution.outline := by
  have hfound : ((lib.searchOrder c).findSome? (hitAt s name)).map Resolution.outline =
      ((lib'.searchOrder c).findSome? (hitAt s name)).map Resolution.outline := by
    rw [map_findSome?_hitAt, map_findSome?_hitAt, h.map_searchOrder]
  rw [resolve?_eq_hitAt, resolve?_eq_hitAt, Option.map_map, Option.map_map]
  congr 1
  funext own
  rw [Function.comp_apply, Function.comp_apply]
  by_cases hown : own.isSubstantial
  · rw [if_pos hown, if_pos hown]
  · rw [if_neg hown, if_neg hown, ← Option.getD_map Resolution.outline, hfound, Option.getD_map]

end SameOutlines

end Library

end Ambient
