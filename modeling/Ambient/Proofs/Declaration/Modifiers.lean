import Ambient.Proofs.Declaration.Functions
import Ambient.Proofs.Declaration.Inheritance
import Ambient.Proofs.Declaration.Suppression

/-!
# Modifiers in interfaces

What a class declares itself is bare if it is an interface: without a
visibility, and neither abstract nor an override. The accessor of a singleton
is the exception, which is public in an interface too. But the declaration of
an interface can hold other bodies, those of mixins that it reaches first
through a class, and a body has the modifiers of its own kind wherever it is
written. `bare_interface_iff` says exactly when the declaration of an interface
is bare.
-/

namespace Ambient

open Annotation

variable {m : Mapper} {lib : Library} {c d : ClassRecord} {path : List String}
variable {s : Section} {name : String} {declared : Member} {x : Method}

/-- The method has no modifiers of a class: no visibility, and it is neither
abstract nor an override. -/
@[mk_iff]
structure Method.IsBare (x : Method) : Prop where
  access : x.access = .unspecified
  isAbstract : x.isAbstract = false
  isOverride : x.isOverride = false

/-- All methods among the pieces are bare. -/
def Bare (ps : List BodyPiece) : Prop := ∀ x, .method x ∈ ps → x.IsBare

theorem bare_append {ps qs : List BodyPiece} : Bare (ps ++ qs) ↔ Bare ps ∧ Bare qs := by
  simp only [Bare, List.mem_append, or_imp, forall_and]

theorem bare_flatMap {α : Type} {f : α → List BodyPiece} {as : List α} :
    Bare (as.flatMap f) ↔ ∀ a ∈ as, Bare (f a) := by
  simp only [Bare, List.mem_flatMap]
  constructor
  · exact fun h a ha x hx => h x ⟨a, ha, hx⟩
  · rintro h x ⟨a, ha, hx⟩
    exact h a ha x hx

/-- A method that is not written need not be bare. -/
theorem bare_visible : Bare (visible x) ↔ (x.access ≠ .privateAccess → x.IsBare) := by
  rw [visible]
  split
  · rename_i hprivate
    exact ⟨fun _ hne => absurd hprivate hne, fun _ _ hx => by cases hx⟩
  · rename_i hne
    simp [Bare, hne]

/-! ## The modifiers of a class -/

/-- The function of an entry is an override. -/
def Library.overrides (lib : Library) (d : ClassRecord) (s : Section) (name : String)
    (declared : Member) : Bool :=
  (resolveMember lib d s name declared).2

/-- In a class that is no interface the function of an entry is bare, if it is
written: it resolves to one without a visibility, is not declared abstract and
overrides nothing. -/
def Library.GivesBareFunction (lib : Library) (d : ClassRecord) (s : Section) (name : String)
    (declared : Member) : Prop :=
  lib.writesMethod d s name declared →
    (lib.memberFor d s name declared).access = .unspecified ∧ declared.isAbstract = false ∧
      lib.overrides d s name declared = false

/-- And so are the accessors of a property, if they are written. -/
def Library.GivesBareAccessors (lib : Library) (d : ClassRecord) (name : String)
    (declared : Property) : Prop :=
  (resolveProperty lib d name declared).1.access ≠ .privateAccess →
    (resolveProperty lib d name declared).1.access = .unspecified ∧
      (resolveProperty lib d name declared).2 = false

/-- All functions of a class are bare, and all accessors. -/
structure ClassRecord.GivesBare (lib : Library) (d : ClassRecord) : Prop where
  functions : ∀ s name declared, (name, declared) ∈ (d.memberTable s).entries →
    lib.GivesBareFunction d s name declared
  accessors : ∀ name declared, (name, declared) ∈ d.properties.entries →
    declared.isGroup = false → lib.GivesBareAccessors d name declared

/-- In an interface every function is bare. -/
theorem bare_methodOf?_iff :
    Bare (((methodOf? m d s name declared).map visible).getD []) ↔
      d.isInterface ∨ m.library.GivesBareFunction d s name declared := by
  have hmember : (resolveMember m.library d s name declared).1 =
      m.library.memberFor d s name declared := rfl
  have hoverride : (resolveMember m.library d s name declared).2 =
      m.library.overrides d s name declared := rfl
  rw [methodOf?, Library.GivesBareFunction, Library.writesMethod]
  simp only [hmember, hoverride]
  cases (m.library.memberFor d s name declared).kind with
  | property => simp [Bare]
  | function =>
    simp only [if_true, Option.map_some, Option.getD_some, bare_visible, Method.isBare_iff]
    cases d.isInterface <;> simp

theorem bare_methodPieces_iff {t : Table Member} :
    Bare (methodPieces m d s t) ↔ ∀ name declared, (name, declared) ∈ t.entries →
      d.isInterface ∨ m.library.GivesBareFunction d s name declared := by
  rw [methodPieces, bare_flatMap, Prod.forall]
  simp only [bare_methodOf?_iff]

theorem accessors_ne_nil (name type : String) (isAsync : Bool) :
    accessors name type isAsync ≠ [] := by
  simp [accessors]

/-- In an interface all accessors are bare. -/
theorem bare_accessorMethods_iff {declared : Property} :
    Bare ((accessorMethods m d name declared).flatMap visible) ↔
      d.isInterface ∨ m.library.GivesBareAccessors d name declared := by
  obtain ⟨first, hfirst⟩ := List.exists_mem_of_ne_nil _ (accessors_ne_nil name
    (m.mapRef (resolveProperty m.library d name declared).1.check)
    (resolveProperty m.library d name declared).1.isAsync)
  rw [bare_flatMap, accessorMethods, Library.GivesBareAccessors]
  simp only [List.forall_mem_map, bare_visible, Method.isBare_iff]
  cases d.isInterface with
  | true => simp
  | false =>
    -- all of them have the modifiers of the first
    simp only [Bool.not_false, Bool.true_and, Bool.false_eq_true, if_false, true_and, false_or]
    exact ⟨fun h => h first hfirst, fun h _ _ => h⟩

theorem bare_propertyPieces_iff :
    Bare (propertyPieces m d) ↔ ∀ name declared, (name, declared) ∈ d.properties.entries →
      declared.isGroup = false → d.isInterface ∨ m.library.GivesBareAccessors d name declared := by
  rw [propertyPieces, bare_flatMap, Prod.forall]
  refine forall₃_congr fun name declared _ => ?_
  cases hgroup : declared.isGroup with
  | true => simp [Bare, hgroup]
  | false =>
    rw [forall_prop_of_true rfl, ← bare_accessorMethods_iff]
    simp only [hgroup, Bool.false_eq_true, if_false]

/-- The accessor of a singleton is public. -/
theorem not_isBare_singletonMethod : ¬ (singletonMethod m d).IsBare := by
  rintro ⟨haccess, -, -⟩
  cases haccess

/-- **When what a class declares itself is bare.** It may not be a singleton,
and has to be an interface or to give nothing else. -/
theorem bare_ownPieces_iff :
    Bare (ownPieces m d) ↔
      d.isSingleton = false ∧ (d.isInterface ∨ d.GivesBare m.library) := by
  have hsingleton : Bare (if d.isSingleton then [.method (singletonMethod m d)] else []) ↔
      d.isSingleton = false := by
    cases d.isSingleton with
    | false => simp [Bare]
    | true => simp [Bare, not_isBare_singletonMethod]
  rw [ownPieces, bare_append, bare_append, bare_append, hsingleton, and_assoc, and_assoc,
    bare_methodPieces_iff, bare_methodPieces_iff, bare_propertyPieces_iff]
  refine and_congr_right fun _ => ?_
  by_cases hinterface : d.isInterface
  · simp [hinterface]
  · simp only [hinterface, Bool.false_eq_true, false_or]
    constructor
    · rintro ⟨hstatics, hmembers, hproperties⟩
      refine ⟨fun s => ?_, hproperties⟩
      cases s with
      | statics => exact hstatics
      | members => exact hmembers
      | properties =>
        intro name declared h
        cases h
    · intro h
      exact ⟨h.functions .statics, h.functions .members, h.accessors⟩

/-! ## The declaration of a class -/

/-- The methods of a declaration are those of the bodies written into it. -/
theorem bare_classBody_iff :
    Bare (classBody m c) ↔ ∀ path d, Written m c path d → Bare (ownPieces m d) := by
  constructor
  · exact fun h path d hd x hx => h x (hd.mem_classBody hx)
  · intro h x hx
    obtain ⟨path, d, hd, hx⟩ := exists_written_of_mem_bodyPieces .own hx
    exact h path d hd x hx

/-- **When an interface is declared without modifiers.** Everything it declares
itself is bare, but for the accessor of a singleton. And its declaration is
bare exactly if neither it nor a class whose body is written into it is a
singleton, and each of these is an interface or gives nothing that is not
bare. -/
theorem bare_interface_iff (hc : c.isInterface) :
    Bare (methodPieces m c .statics c.statics ++ methodPieces m c .members c.members ++
      propertyPieces m c) ∧
    (Bare (classBody m c) ↔ ∀ path d, Written m c path d →
      d.isSingleton = false ∧ (d.isInterface ∨ d.GivesBare m.library)) := by
  refine ⟨?_, ?_⟩
  · rw [bare_append, bare_append, bare_methodPieces_iff, bare_methodPieces_iff,
      bare_propertyPieces_iff]
    simp [hc]
  · simp only [bare_classBody_iff, bare_ownPieces_iff]

/-! ## An interface that extends a class -/

/-- A function that is protected and abstract. -/
def guarded : Member := { giving with access := .protectedAccess, isAbstract := true }

/-- A mixin with such a function. -/
def guarding : ClassRecord :=
  { (default : ClassRecord) with
    name := "a.M", kind := .mixin, members := .ofList [("go", guarded)] }

/-- A class that includes the mixin. -/
def sheltering : ClassRecord :=
  { (default : ClassRecord) with name := "a.B", kind := .plain, mixins := ["a.M"] }

/-- An interface and singleton that extends the class, and lists the mixin. -/
def extending : ClassRecord :=
  { (default : ClassRecord) with
    name := "a.I", kind := .interface, isSingleton := true
    superclasses := some ["a.B"], mixins := ["a.M"] }

/-- An interface that declares such a function itself. -/
def declaring : ClassRecord :=
  { (default : ClassRecord) with
    name := "a.J", kind := .interface, members := .ofList [("go", guarded)] }

/-- The four of them. -/
def modified : Library where
  root := ""
  classes := .ofList
    [("a.B", sheltering), ("a.I", extending), ("a.J", declaring), ("a.M", guarding)]
  named := by decide

/-- A mapper without aliases for the four classes. -/
def modifiedMapper : Mapper := ⟨[], modified⟩

/-- No other body is written into the declaration of the second interface. -/
theorem eq_of_written_declaring (h : Written modifiedMapper declaring path d) : d = declaring := by
  induction h with
  | own => rfl
  | mixin _ hname _ _ ih =>
    subst ih
    cases hname

theorem bare_declaring :
    declaring.isInterface ∧ (∃ x, .method x ∈ classBody modifiedMapper declaring) ∧
      Bare (classBody modifiedMapper declaring) := by
  have hinterface : declaring.isInterface := rfl
  obtain ⟨x, hx⟩ : ∃ x, methodPieces modifiedMapper declaring .members declaring.members =
      [.method x] := ⟨_, rfl⟩
  have hmem : .method x ∈ ownPieces modifiedMapper declaring := by
    simp [ownPieces, hx]
  refine ⟨hinterface, ⟨x, Written.own.mem_classBody hmem⟩,
    (bare_interface_iff hinterface).2.2 fun path d hd => ?_⟩
  rw [eq_of_written_declaring hd]
  exact ⟨rfl, .inl hinterface⟩

/-- The first interface reaches the mixin through the class before its own
mention of it. -/
theorem firstRelation?_extending : modified.firstRelation? extending "a.M" = some .mixin := by
  have hB : modified.find? "a.B" = some sheltering := rfl
  have hM : modified.find? "a.M" = some guarding := rfl
  have hrefs : extending.references = [(.interface, "a.B"), (.interface, "a.M")] := rfl
  have hancestry : modified.ancestry extending = [(.interface, sheltering), (.mixin, guarding)] := by
    rw [Library.ancestry, hrefs, Library.walk_cons_new hB (by decide)]
    change _ :: modified.walk _ _ [(Relation.mixin, "a.M"), (.interface, "a.M")] = _
    rw [Library.walk_cons_new hM (by decide)]
    change _ :: _ :: modified.walk _ _ [(Relation.interface, "a.M")] = _
    rw [Library.walk_cons_seen (by decide), Library.walk_nil]
  rw [Library.firstRelation?_eq, hancestry]
  decide

/-- So the body of the mixin is written into its declaration. -/
theorem written_guarding : Written modifiedMapper extending ["a.M", "a.I"] guarding := by
  refine .mixin .own (by decide) (by decide) ?_
  have hfirst : modifiedMapper.library.firstRelation? extending "a.M" = some .mixin :=
    firstRelation?_extending
  rw [Library.find?_ancestors, if_pos hfirst]
  rfl

/-- **An interface can be declared with the modifiers of a class**: the accessor
of a singleton is public, and a function of an included mixin is protected and
abstract. -/
theorem not_bare_extending :
    modifiedMapper.library.find? "a.I" = some extending ∧ extending.isInterface ∧
      (∃ x, .method x ∈ classBody modifiedMapper extending ∧ x.name = "getInstance" ∧
        x.access = .publicAccess) ∧
      ∃ x, .method x ∈ classBody modifiedMapper extending ∧ x.name = "go" ∧
        x.access = .protectedAccess ∧ x.isAbstract := by
  obtain ⟨x, hx, hname, haccess, habstract⟩ : ∃ x,
      methodPieces modifiedMapper guarding .members guarding.members = [.method x] ∧
        x.name = "go" ∧ x.access = .protectedAccess ∧ x.isAbstract := ⟨_, rfl, rfl, rfl, rfl⟩
  have hsingleton : .method (singletonMethod modifiedMapper extending) ∈
      ownPieces modifiedMapper extending := by
    simp [ownPieces, extending]
  have hmem : .method x ∈ ownPieces modifiedMapper guarding := by
    simp [ownPieces, hx]
  exact ⟨rfl, rfl, ⟨_, Written.own.mem_classBody hsingleton, rfl, rfl⟩,
    x, written_guarding.mem_classBody hmem, hname, haccess, habstract⟩

end Ambient
