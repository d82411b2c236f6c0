import Ambient.Declaration.Body
import Ambient.Proofs.Library.Ancestry

/-!
# Which mixins have their bodies written

The body of a class holds a marker for every mixin it lists, and below the
marker the body of the mixin, but only if the ancestry of the class being
declared files the mixin as one. `mixinPieces_of_written` says exactly when
that is: when the first reference that leads to the mixin is a mixin
reference. A mixin that an interface or a superclass reference reaches
before has its marker and nothing below it.
-/

namespace Ambient

open Annotation

variable {m : Mapper} {c d e : ClassRecord} {mixins : List ClassRecord}
variable {path : List String} {name : String}

/-- What is written for a mixin that a body lists: nothing while its own body
is being written, else its marker and the body found for it. -/
def mixinPieces (m : Mapper) (mixins : List ClassRecord) (path : List String) (name : String) :
    List BodyPiece :=
  if name ∈ path then []
  else
    .mixin name ::
      ((mixins.find? (·.name = name)).map (bodyPieces m mixins (name :: path))).getD []

theorem bodyPieces_eq :
    bodyPieces m mixins path c =
      ownPieces m c ++ c.mixins.flatMap (mixinPieces m mixins path) := by
  rw [bodyPieces]
  congr 2
  funext name
  rw [mixinPieces]
  by_cases hpath : name ∈ path
  · rw [dif_pos hpath, if_pos hpath]
  · rw [dif_neg hpath, if_neg hpath]
    split <;> rename_i hfind <;> rw [hfind] <;> rfl

/-- What is written for a mixin stands in every body that lists it. -/
theorem mixinPieces_infix_bodyPieces (hname : name ∈ d.mixins) :
    mixinPieces m mixins path name <:+: bodyPieces m mixins path d := by
  have hlisted : mixinPieces m mixins path name <:+: d.mixins.flatMap (mixinPieces m mixins path) :=
    List.flatMap_def ▸ List.infix_of_mem_flatten (List.mem_map_of_mem hname)
  rw [bodyPieces_eq]
  exact hlisted.trans (List.suffix_append _ _).isInfix

/-- The bodies that are written into the declaration of a class, each with
the path of the bodies around it: its own, and those found for the mixins
that a written body lists. -/
inductive Written (m : Mapper) (c : ClassRecord) : List String → ClassRecord → Prop
  | own : Written m c [c.name] c
  | mixin {path : List String} {d e : ClassRecord} {name : String} (hd : Written m c path d)
      (hname : name ∈ d.mixins) (hpath : name ∉ path)
      (he : (m.library.ancestors .mixin c).find? (·.name = name) = some e) :
      Written m c (name :: path) e

namespace Written

theorem name_mem (h : Written m c path d) : c.name ∈ path := by
  induction h with
  | own => exact List.mem_cons_self
  | mixin _ _ _ _ ih => exact List.mem_cons_of_mem _ ih

/-- A written body is part of the declaration, all of it. -/
theorem infix_classBody (h : Written m c path d) :
    bodyPieces m (m.library.ancestors .mixin c) path d <:+: classBody m c := by
  induction h with
  | own => exact List.infix_refl _
  | @mixin path d e name _ hname hpath he ih =>
    refine .trans ?_ ih
    have hbody : bodyPieces m (m.library.ancestors .mixin c) (name :: path) e <:+:
        mixinPieces m (m.library.ancestors .mixin c) path name := by
      rw [mixinPieces, if_neg hpath, he]
      exact (List.suffix_cons _ _).isInfix
    exact hbody.trans (mixinPieces_infix_bodyPieces hname)

/-- What a class with a written body lists is reachable from the class being
declared, unless it is that class. -/
theorem reaches_of_mem_mixins (h : Written m c path d) (hname : name ∈ d.mixins)
    (hne : name ≠ c.name) (he : m.library.find? name = some e) :
    m.library.Reaches c.name c.referencedNames e := by
  have hreferenced {d : ClassRecord} {name : String} (h : name ∈ d.mixins) :
      name ∈ d.referencedNames := List.mem_append_right _ h
  induction h generalizing name e with
  | own => exact .start (hreferenced hname) he hne
  | @mixin path d' d name' hd' hname' hpath' hd ih =>
    -- the body before was found among the ancestors, so its class is known
    have hknown : m.library.find? name' = some d := by
      rw [Library.find?_ancestors] at hd
      split at hd
      · exact hd
      · cases hd
    exact .step (ih hname' (fun heq => hpath' (heq ▸ hd'.name_mem)) hknown) (hreferenced hname)
      he hne

end Written

/-- **When the body of a mixin is written.** Let a body written into the
declaration of a class list a mixin that is known and whose body is not
being written already. Some reference leads to the mixin first; if it is a
mixin reference, the marker is followed by the whole body of the mixin, and
if not, by nothing of it. -/
theorem mixinPieces_of_written (h : Written m c path d) (hname : name ∈ d.mixins)
    (hpath : name ∉ path) (he : m.library.find? name = some e) :
    (mixinPieces m (m.library.ancestors .mixin c) path name <:+: classBody m c) ∧
      (∃ r, m.library.firstRelation? c name = some r) ∧
      mixinPieces m (m.library.ancestors .mixin c) path name =
        .mixin name ::
          if m.library.firstRelation? c name = some .mixin then
            bodyPieces m (m.library.ancestors .mixin c) (name :: path) e
          else [] := by
  have hne : name ≠ c.name := fun heq => hpath (heq ▸ h.name_mem)
  refine ⟨(mixinPieces_infix_bodyPieces hname).trans h.infix_classBody, ?_, ?_⟩
  · rw [← Library.name_of_find? he]
    exact Library.exists_firstRelation?_of_reaches (h.reaches_of_mem_mixins hname hne he)
  · rw [mixinPieces, if_neg hpath, Library.find?_ancestors, he]
    split <;> rfl

/-! ## A mixin that an interface reaches first -/

/-- A function that returns a text. -/
def giving : Member where
  kind := .function
  access := .unspecified
  isStatic := false
  isAbstract := false
  isAsync := false
  fromMixin := false
  params := none
  returnType := some (.named "String")
  doc := []

/-- A class that includes the mixin `a.M`, itself and by the mixin `a.N`, and
implements an interface. -/
def includer : ClassRecord :=
  { (default : ClassRecord) with
    name := "a.C", kind := .plain, interfaces := ["a.I"], mixins := ["a.M", "a.N"] }

/-- The interface lists the mixin as well. -/
def implemented : ClassRecord :=
  { (default : ClassRecord) with name := "a.I", kind := .interface, mixins := ["a.M"] }

/-- A mixin with one member. -/
def included : ClassRecord :=
  { (default : ClassRecord) with
    name := "a.M", kind := .mixin, members := .ofList [("go", giving)] }

/-- A mixin that includes the other. -/
def between : ClassRecord :=
  { (default : ClassRecord) with name := "a.N", kind := .mixin, mixins := ["a.M"] }

/-- The four of them. -/
def shadowed : Library where
  root := ""
  classes := .ofList
    [("a.C", includer), ("a.I", implemented), ("a.M", included), ("a.N", between)]
  named := by decide

theorem ancestry_shadowed : shadowed.ancestry includer =
    [(.interface, implemented), (.interface, included), (.mixin, between)] := by
  have hI : shadowed.find? "a.I" = some implemented := rfl
  have hM : shadowed.find? "a.M" = some included := rfl
  have hN : shadowed.find? "a.N" = some between := rfl
  have hC : includer.references =
      [(.interface, "a.I"), (.mixin, "a.M"), (.mixin, "a.N")] := rfl
  rw [Library.ancestry, hC, Library.walk_cons_new hI (by decide)]
  change _ :: shadowed.walk _ _
    [(Relation.interface, "a.M"), (.mixin, "a.M"), (.mixin, "a.N")] = _
  rw [Library.walk_cons_new hM (by decide)]
  change _ :: _ :: shadowed.walk _ _ [(Relation.mixin, "a.M"), (.mixin, "a.N")] = _
  rw [Library.walk_cons_seen (by decide), Library.walk_cons_new hN (by decide)]
  change _ :: _ :: _ :: shadowed.walk _ _ [(Relation.mixin, "a.M")] = _
  rw [Library.walk_cons_seen (by decide), Library.walk_nil]

theorem firstRelation?_shadowed :
    shadowed.firstRelation? includer "a.M" = some .interface ∧
      shadowed.firstRelation? includer "a.N" = some .mixin := by
  rw [Library.firstRelation?_eq, Library.firstRelation?_eq, ancestry_shadowed]
  exact ⟨by decide, by decide⟩

/-- A mapper without aliases for the four classes. -/
def shadowedMapper : Mapper := ⟨[], shadowed⟩

/-- The body of the mixin is not empty. -/
theorem bodyPieces_included_ne_nil :
    bodyPieces shadowedMapper mixins path included ≠ [] := by
  have hgo : ∃ x, methodPieces shadowedMapper included .members included.members = [.method x] :=
    ⟨_, rfl⟩
  obtain ⟨x, hgo⟩ := hgo
  simp [bodyPieces_eq, ownPieces, hgo]

/-- **A mixin that is listed and known can lose its body.** The class
includes the mixin, whose body is not empty, and only its marker is
written. -/
theorem mixinPieces_includer_ne :
    Written shadowedMapper includer ["a.C"] includer ∧ "a.M" ∈ includer.mixins ∧
      "a.M" ∉ ["a.C"] ∧ shadowedMapper.library.find? "a.M" = some included ∧
      mixinPieces shadowedMapper (shadowedMapper.library.ancestors .mixin includer) ["a.C"] "a.M" ≠
        .mixin "a.M" :: bodyPieces shadowedMapper
          (shadowedMapper.library.ancestors .mixin includer) ["a.M", "a.C"] included := by
  refine ⟨.own, by decide, by decide, rfl, ?_⟩
  have hrelation := firstRelation?_shadowed.1
  rw [mixinPieces, if_neg (by decide), Library.find?_ancestors]
  simp only [shadowedMapper, hrelation]
  intro heq
  exact bodyPieces_included_ne_nil (List.cons.inj heq).2.symm

/-- Inside the body of the other mixin, which is written, it has none
either. -/
theorem mixinPieces_below_between :
    Written shadowedMapper includer ["a.N", "a.C"] between ∧ "a.M" ∈ between.mixins ∧
      mixinPieces shadowedMapper (shadowedMapper.library.ancestors .mixin includer)
        ["a.N", "a.C"] "a.M" = [.mixin "a.M"] := by
  have hbetween : (shadowed.ancestors .mixin includer).find? (·.name = "a.N") = some between := by
    rw [Library.find?_ancestors, if_pos firstRelation?_shadowed.2]
    rfl
  have hwritten : Written shadowedMapper includer ["a.N", "a.C"] between :=
    .mixin .own (by decide) (by decide) hbetween
  have hrelation : shadowedMapper.library.firstRelation? includer "a.M" = some .interface :=
    firstRelation?_shadowed.1
  have hlisted : "a.M" ∈ between.mixins := by decide
  have hfind : shadowedMapper.library.find? "a.M" = some included := rfl
  obtain ⟨-, -, hpieces⟩ := mixinPieces_of_written hwritten hlisted (by decide) hfind
  refine ⟨hwritten, hlisted, ?_⟩
  rw [hpieces, hrelation]
  rfl

end Ambient
