import Ambient.Proofs.Declaration.Locality
import Ambient.Proofs.Library.Outline

/-!
# What a declaration inherits

A method of a class mixes two records. Its types, its kind and its visibility
are those of the definition that the member resolves to, which may stand in
any ancestor; its marks and its documentation are those that the class gives
itself (`markedBy_of_mem_ownPieces`). Of the ancestors a declaration thus
reads the outlines alone: libraries with the same outlines that have the same
records of the bodies written into it declare the class with the same text
(`declarationText_eq_of_sameOutlines`).
-/

namespace Ambient

open Annotation

variable {m m' : Mapper} {lib lib' : Library} {aliases : Aliases} {c d e : ClassRecord}
variable {s : Section} {name : String} {path : List String} {x : Method}

/-! ## The members of a class -/

/-- What a member resolves to, by its outline. -/
theorem outline_resolveMember (lib : Library) (c : ClassRecord) (s : Section) (name : String)
    (declared : Member) :
    (resolveMember lib c s name declared).map Member.outline id =
      match (lib.resolve? c s name).map Resolution.outline with
      | some ⟨.method x, isOverride⟩ => (x, isOverride)
      | _ => (declared.outline, false) := by
  rw [resolveMember]
  rcases lib.resolve? c s name with _ | ⟨x | p, isOverride⟩ <;> rfl

theorem outline_resolveProperty (lib : Library) (c : ClassRecord) (name : String)
    (declared : Property) :
    (resolveProperty lib c name declared).map Property.outline id =
      match (lib.resolve? c .properties name).map Resolution.outline with
      | some ⟨.property p, isOverride⟩ => (p, isOverride)
      | _ => (declared.outline, false) := by
  rw [resolveProperty]
  rcases lib.resolve? c .properties name with _ | ⟨x | p, isOverride⟩ <;> rfl

section Resolved

variable (htypes : m.mapType = m'.mapType) (h : m.library.SameOutlines m'.library)

include htypes h

/-- A function takes from the definition it resolves to what the outline
keeps. -/
theorem methodOf?_eq_of_sameOutlines (declared : Member) :
    methodOf? m c s name declared = methodOf? m' c s name declared := by
  have hresolved : (resolveMember m.library c s name declared).map Member.outline id =
      (resolveMember m'.library c s name declared).map Member.outline id := by
    rw [outline_resolveMember, outline_resolveMember, h.map_resolve?]
  rw [methodOf?, methodOf?]
  generalize resolveMember m.library c s name declared = r at hresolved ⊢
  generalize resolveMember m'.library c s name declared = r' at hresolved ⊢
  obtain ⟨x, isOverride⟩ := r
  obtain ⟨x', isOverride'⟩ := r'
  obtain ⟨hx, hoverride⟩ := Prod.mk.inj hresolved
  obtain ⟨hkind, haccess, hparams, hreturn⟩ := Member.outline_eq_iff.1 hx
  simp only [id_eq] at hoverride
  simp only [hkind, haccess, hparams, hreturn, hoverride, renderParams_congr htypes,
    renderReturn_congr htypes]

/-- And so do the accessors of a property. -/
theorem accessorMethods_eq_of_sameOutlines (declared : Property) :
    accessorMethods m c name declared = accessorMethods m' c name declared := by
  have hresolved : (resolveProperty m.library c name declared).map Property.outline id =
      (resolveProperty m'.library c name declared).map Property.outline id := by
    rw [outline_resolveProperty, outline_resolveProperty, h.map_resolve?]
  rw [accessorMethods, accessorMethods]
  generalize resolveProperty m.library c name declared = r at hresolved ⊢
  generalize resolveProperty m'.library c name declared = r' at hresolved ⊢
  obtain ⟨p, isOverride⟩ := r
  obtain ⟨p', isOverride'⟩ := r'
  obtain ⟨hp, hoverride⟩ := Prod.mk.inj hresolved
  obtain ⟨hcheck, hasync, haccess⟩ := Property.outline_eq_iff.1 hp
  simp only [id_eq] at hoverride
  simp only [hcheck, hasync, haccess, hoverride, mapRef_congr htypes]

/-- **A class declares the same in libraries with the same outlines.** -/
theorem ownPieces_eq_of_sameOutlines : ownPieces m c = ownPieces m' c := by
  have hmethods : methodPieces m c = methodPieces m' c := by
    funext s t
    simp only [methodPieces, methodOf?_eq_of_sameOutlines htypes h]
  have hproperties : propertyPieces m c = propertyPieces m' c := by
    simp only [propertyPieces, accessorMethods_eq_of_sameOutlines htypes h]
  rw [ownPieces, ownPieces, hmethods, hproperties, singletonMethod, singletonMethod, htypes]

end Resolved

/-! ## The bodies written into a declaration -/

/-- The body of `d` is written into the declaration of `c`: as its own, or as
that of an included mixin. -/
def Library.Inlines (lib : Library) (c d : ClassRecord) : Prop :=
  ∃ aliases path, Written ⟨aliases, lib⟩ c path d

/-- The same mixins are found for a body that is written, when the records of
those whose bodies are written are the same. -/
theorem find?_ancestors_eq_of_sameOutlines (h : lib.SameOutlines lib')
    (hinlined : ∀ d, lib.Inlines c d → lib'.find? d.name = some d)
    (hd : Written ⟨aliases, lib⟩ c path d) (hname : name ∈ d.mixins) (hpath : name ∉ path) :
    (lib.ancestors .mixin c).find? (·.name = name) =
      (lib'.ancestors .mixin c).find? (·.name = name) := by
  have hinline : ∀ e, (lib.ancestors .mixin c).find? (·.name = name) = some e →
      lib'.find? name = some e := by
    intro e he
    have hname' : e.name = name := by simpa using List.find?_some he
    exact hname' ▸ hinlined e ⟨aliases, name :: path, hd.mixin hname hpath he⟩
  rw [Library.find?_ancestors, Library.find?_ancestors, h.firstRelation?_eq] at *
  by_cases hfirst : lib'.firstRelation? c name = some .mixin
  · rw [if_pos hfirst] at hinline
    rw [if_pos hfirst, if_pos hfirst]
    cases he : lib.find? name with
    | none =>
      have hnone := h.find? name
      rw [he, Option.map_none, eq_comm, Option.map_eq_none_iff] at hnone
      exact hnone.symm
    | some e => exact (hinline e he).symm
  · rw [if_neg hfirst, if_neg hfirst]

/-- **Every written body is the same.** -/
theorem bodyPieces_eq_of_sameOutlines (h : lib.SameOutlines lib')
    (hinlined : ∀ d, lib.Inlines c d → lib'.find? d.name = some d)
    (hd : Written ⟨aliases, lib⟩ c path d) :
    bodyPieces ⟨aliases, lib⟩ (lib.ancestors .mixin c) path d =
      bodyPieces ⟨aliases, lib'⟩ (lib'.ancestors .mixin c) path d := by
  induction path, d using bodyPieces.induct (lib.ancestors .mixin c) with
  | case1 path d ih =>
    have hown : ownPieces ⟨aliases, lib⟩ d = ownPieces ⟨aliases, lib'⟩ d :=
      ownPieces_eq_of_sameOutlines (mapType_congr h.contains_eq) h
    rw [bodyPieces_eq, bodyPieces_eq, hown]
    refine congrArg _ (List.flatMap_congr fun name hname => ?_)
    rw [mixinPieces, mixinPieces]
    by_cases hpath : name ∈ path
    · rw [if_pos hpath, if_pos hpath]
    · rw [if_neg hpath, if_neg hpath,
        ← find?_ancestors_eq_of_sameOutlines h hinlined hd hname hpath]
      cases hfind : (lib.ancestors .mixin c).find? (·.name = name) with
      | none => rw [Option.map_none, Option.map_none]
      | some e =>
        rw [Option.map_some, Option.map_some,
          ih name hpath e hfind (hd.mixin hname hpath hfind)]

/-! ## Marks and documentation -/

/-- The marks and the documentation of a method are those that a class gives
it itself: with the entry of a member, with that of the property which it
accesses, or with none for the accessor of a singleton. -/
inductive MarkedBy (d : ClassRecord) (x : Method) : Prop
  | member {t : Table Member} {declared : Member} (htable : t = d.statics ∨ t = d.members)
      (hdeclared : (x.name, declared) ∈ t.entries)
      (habstract : x.isAbstract = (!d.isInterface && declared.isAbstract))
      (hmixin : x.fromMixin = declared.fromMixin) (hdoc : x.doc = declared.doc)
  | accessor {name type : String} {isAsync : Bool} {declared : Property} {a : Accessor}
      (hdeclared : (name, declared) ∈ d.properties.entries) (ha : a ∈ accessors name type isAsync)
      (hname : x.name = a.name) (habstract : x.isAbstract = false) (hmixin : x.fromMixin = false)
      (hdoc : x.doc = ("* " ++ a.description) :: declared.doc)
  | singleton (hsingleton : d.isSingleton) (hname : x.name = "getInstance")
      (habstract : x.isAbstract = false) (hmixin : x.fromMixin = false) (hdoc : x.doc = [])

theorem eq_of_mem_visible {y : Method} (h : .method x ∈ visible y) : x = y := by
  rw [visible] at h
  split at h
  · cases h
  · cases List.mem_singleton.1 h
    rfl

/-- **A class marks its methods itself**, whatever they resolve to. -/
theorem markedBy_of_mem_ownPieces (h : .method x ∈ ownPieces m d) : MarkedBy d x := by
  have hmember : ∀ {s t}, (t = d.statics ∨ t = d.members) → .method x ∈ methodPieces m d s t →
      MarkedBy d x := by
    intro s t htable hx
    obtain ⟨⟨name, declared⟩, hdeclared, hx⟩ := List.mem_flatMap.1 hx
    dsimp only at hx
    rw [methodOf?] at hx
    generalize resolveMember m.library d s name declared = r at hx
    dsimp only at hx
    split at hx
    · cases eq_of_mem_visible hx
      exact .member htable hdeclared rfl rfl rfl
    · cases hx
  have hproperty : .method x ∈ propertyPieces m d → MarkedBy d x := by
    intro hx
    obtain ⟨⟨name, declared⟩, hdeclared, hx⟩ := List.mem_flatMap.1 hx
    dsimp only at hx
    split at hx
    · cases hx
    · obtain ⟨y, hy, hx⟩ := List.mem_flatMap.1 hx
      obtain ⟨a, ha, rfl⟩ := List.mem_map.1 hy
      cases eq_of_mem_visible hx
      exact .accessor hdeclared ha rfl rfl rfl rfl
  simp only [ownPieces, List.mem_append] at h
  rcases h with ((h | h) | h) | h
  · split at h
    · rename_i hsingleton
      cases List.mem_singleton.1 h
      exact .singleton hsingleton rfl rfl rfl rfl
    · cases h
  · exact hmember (.inl rfl) h
  · exact hmember (.inr rfl) h
  · exact hproperty h

/-- Every method in a body is declared by a class whose body is written. -/
theorem exists_written_of_mem_bodyPieces (hd : Written m c path d)
    (h : .method x ∈ bodyPieces m (m.library.ancestors .mixin c) path d) :
    ∃ path e, Written m c path e ∧ .method x ∈ ownPieces m e := by
  induction path, d using bodyPieces.induct (m.library.ancestors .mixin c) with
  | case1 path d ih =>
    rw [bodyPieces_eq] at h
    rcases List.mem_append.1 h with h | h
    · exact ⟨path, d, hd, h⟩
    · obtain ⟨name, hname, h⟩ := List.mem_flatMap.1 h
      rw [mixinPieces] at h
      split at h
      · cases h
      · rename_i hpath
        rcases List.mem_cons.1 h with h | h
        · cases h
        · cases hfind : (m.library.ancestors .mixin c).find? (·.name = name) with
          | none => simp [hfind] at h
          | some e =>
            rw [hfind] at h
            exact ih name hpath e hfind (hd.mixin hname hpath hfind) h

/-! ## Two libraries -/

/-- **Only types, kind, visibility and asynchrony are inherited.** Libraries
with the same outlines that have the same records of a class and of the
mixins written into its declaration declare the class with the same text,
under every configuration. And the marks and the documentation of each method
in it are those of a class whose body is written: an inherited method that is
abstract makes none abstract that is not declared so. -/
theorem declarationText_eq_of_sameOutlines (h : lib.SameOutlines lib')
    (hinlined : ∀ d, lib.Inlines c d → lib'.find? d.name = some d) :
    (∀ cwd config inNamespace,
      declarationText cwd config lib inNamespace c =
        declarationText cwd config lib' inNamespace c) ∧
    ∀ config x, .method x ∈ classBody (mapperOf config lib) c →
      ∃ d, lib.Inlines c d ∧ lib'.find? d.name = some d ∧ MarkedBy d x := by
  constructor
  · intro cwd config inNamespace
    have htypes : (mapperOf config lib).mapType = (mapperOf config lib').mapType :=
      mapType_congr h.contains_eq
    have hbody : classBody (mapperOf config lib) c = classBody (mapperOf config lib') c :=
      bodyPieces_eq_of_sameOutlines h hinlined .own
    rw [declarationText, declarationText, classPieces, classPieces, classHead_congr htypes,
      constructorParams?_congr htypes, hbody, h.root]
  · intro config x hx
    obtain ⟨path, d, hd, hx⟩ := exists_written_of_mem_bodyPieces .own hx
    have hd' : lib.Inlines c d := ⟨_, path, hd⟩
    exact ⟨d, hd', hinlined d hd', markedBy_of_mem_ownPieces hx⟩

/-- A function without types of its own. -/
def untyped : Member := { giving with returnType := none }

/-- A class that redefines a function of its superclass and includes a
mixin. -/
def heir : ClassRecord :=
  { (default : ClassRecord) with
    name := "a.K", kind := .plain, superclasses := some ["a.P"], mixins := ["a.M"]
    members := .ofList [("go", untyped)] }

/-- The superclass, which may declare the function as abstract and document
it. -/
def forebear (isAbstract : Bool) : ClassRecord :=
  { (default : ClassRecord) with
    name := "a.P", kind := .plain, isAbstract := isAbstract
    members := .ofList [("go",
      { giving with isAbstract := isAbstract, doc := if isAbstract then ["Goes."] else [] })] }

/-- The two of them and the mixin. -/
def lineage (isAbstract : Bool) : Library where
  root := ""
  classes := .ofList [("a.K", heir), ("a.P", forebear isAbstract), ("a.M", included)]
  named := by cases isAbstract <;> decide

theorem sameOutlines_lineage : (lineage true).SameOutlines (lineage false) := by
  refine ⟨rfl, fun name => ?_⟩
  have hentries : ∀ isAbstract, (lineage isAbstract).classes.entries =
      [("a.K", heir), ("a.P", forebear isAbstract), ("a.M", included)] := by
    intro isAbstract
    cases isAbstract <;> rfl
  have houtline : (forebear true).outline = (forebear false).outline := rfl
  simp only [Library.find?, Table.get?, hentries, List.lookup_cons]
  cases name == "a.K" <;> cases name == "a.P" <;> simp [houtline]

/-- Only its own body and that of the mixin are written into the declaration
of the class. -/
theorem eq_of_inlines_heir {isAbstract : Bool} (h : (lineage isAbstract).Inlines heir d) :
    d = heir ∨ d = included := by
  obtain ⟨aliases, path, h⟩ := h
  induction h with
  | own => exact .inl rfl
  | @mixin path d e name _ hname _ he ih =>
    rw [Library.find?_ancestors] at he
    split at he
    · rcases ih with rfl | rfl
      · rw [List.mem_singleton.1 (hname : name ∈ ["a.M"])] at he
        exact .inr (Option.some.inj he).symm
      · cases hname
    · cases he

theorem declarationText_heir :
    (lineage true).SameOutlines (lineage false) ∧
      (∀ d, (lineage true).Inlines heir d → (lineage false).find? d.name = some d) ∧
      (lineage true).find? "a.P" ≠ (lineage false).find? "a.P" ∧
      declarationText "/" .default (lineage true) true heir =
        declarationText "/" .default (lineage false) true heir := by
  have hinlined : ∀ d, (lineage true).Inlines heir d →
      (lineage false).find? d.name = some d := by
    intro d hd
    rcases eq_of_inlines_heir hd with rfl | rfl <;> rfl
  refine ⟨sameOutlines_lineage, hinlined, fun heq => ?_,
    (declarationText_eq_of_sameOutlines sameOutlines_lineage hinlined).1 "/" .default true⟩
  have habstract : (forebear true).isAbstract = (forebear false).isAbstract :=
    congrArg ClassRecord.isAbstract (Option.some.inj heq)
  cases habstract

end Ambient
