import Ambient.Proofs.Declaration.Inclusion
import Ambient.Proofs.Declaration.Layout
import Ambient.Proofs.Library.Agreement

/-!
# What a declaration depends on

A declaration reads a library in four ways: its annotations ask which names
are described, its members are resolved, its mixins are looked up in its
ancestry, and the body of each of them is written in the same manner. None
of these reads the record of a class that the declared one does not lead
to, so libraries of the same names that agree below a class declare it
alike (`declarationText_eq_of_agree`).
-/

namespace Ambient

open Annotation

variable {m m' : Mapper} {lib lib' : Library} {c d : ClassRecord} {mixins : List ClassRecord}

/-! ## Annotations -/

/-- A mapping asks a library only which names it describes. -/
theorem mapType_congr {aliases : Aliases} (h : lib.contains = lib'.contains) :
    (⟨aliases, lib⟩ : Mapper).mapType = (⟨aliases, lib'⟩ : Mapper).mapType := by
  have hdenotes : ∀ s, (⟨aliases, lib⟩ : Mapper).denotesClass s =
      (⟨aliases, lib'⟩ : Mapper).denotesClass s := by
    intro s
    simp only [Mapper.denotesClass, Mapper.isKnownClass, h]
  funext expr
  simp only [Mapper.mapType, Mapper.mapChars, hdenotes]
  rfl

section Mapped

variable (h : m.mapType = m'.mapType)

include h

theorem mapRef_congr : m.mapRef = m'.mapRef := by
  funext type
  rw [Mapper.mapRef, Mapper.mapRef, h]

theorem paramTexts_congr (isOptional : Bool) (params : List Param) :
    paramTexts m isOptional params = paramTexts m' isOptional params := by
  induction params generalizing isOptional with
  | nil => rfl
  | cons p params ih => rw [paramTexts, paramTexts, mapRef_congr h, ih]

theorem renderParams_congr : renderParams m = renderParams m' := by
  funext params
  rw [renderParams, renderParams, paramTexts_congr h]

theorem renderReturn_congr : renderReturn m = renderReturn m' := by
  funext type
  cases type with
  | none => rfl
  | some type => rw [renderReturn, renderReturn, mapRef_congr h]

theorem classHead_congr (b : Bool) (c : ClassRecord) : classHead m b c = classHead m' b c := by
  have hparent : parentType? m = parentType? m' := by
    funext name
    rw [parentType?, parentType?, h]
  unfold classHead parentTypes implementedTypes
  rw [hparent, h]

theorem constructorParams?_congr (c : ClassRecord) :
    constructorParams? m c = constructorParams? m' c := by
  rw [constructorParams?, constructorParams?, renderParams_congr h]

/-! ## Bodies -/

theorem methodOf?_congr (hresolve : m.library.resolve? c = m'.library.resolve? c) (s : Section)
    (name : String) (declared : Member) :
    methodOf? m c s name declared = methodOf? m' c s name declared := by
  rw [methodOf?, methodOf?, resolveMember, resolveMember, hresolve, renderParams_congr h,
    renderReturn_congr h]

theorem accessorMethods_congr (hresolve : m.library.resolve? c = m'.library.resolve? c)
    (name : String) (declared : Property) :
    accessorMethods m c name declared = accessorMethods m' c name declared := by
  rw [accessorMethods, accessorMethods, resolveProperty, resolveProperty, hresolve, mapRef_congr h]

/-- A class declares the same when its members resolve alike. -/
theorem ownPieces_congr (hresolve : m.library.resolve? c = m'.library.resolve? c) :
    ownPieces m c = ownPieces m' c := by
  have hmethods : methodPieces m c = methodPieces m' c := by
    funext s t
    simp only [methodPieces, methodOf?_congr h hresolve]
  have hproperties : propertyPieces m c = propertyPieces m' c := by
    simp only [propertyPieces, accessorMethods_congr h hresolve]
  rw [ownPieces, ownPieces, hmethods, hproperties, singletonMethod, singletonMethod, h]

end Mapped

/-- And so does its body when that holds of every mixin that can be
included. -/
theorem bodyPieces_congr (hown : ∀ d ∈ mixins, ownPieces m d = ownPieces m' d)
    (path : List String) (hc : ownPieces m c = ownPieces m' c) :
    bodyPieces m mixins path c = bodyPieces m' mixins path c := by
  induction path, c using bodyPieces.induct mixins with
  | case1 path c ih =>
    have hmixins : mixinPieces m mixins path = mixinPieces m' mixins path := by
      funext name
      rw [mixinPieces, mixinPieces]
      by_cases hpath : name ∈ path
      · rw [if_pos hpath, if_pos hpath]
      · rw [if_neg hpath, if_neg hpath]
        cases hfind : mixins.find? (·.name = name) with
        | none => rw [Option.map_none, Option.map_none]
        | some d =>
          have hd := ih name hpath d hfind (hown d (List.mem_of_find?_eq_some hfind))
          rw [Option.map_some, Option.map_some, hd]
    rw [bodyPieces_eq, bodyPieces_eq, hc, hmixins]

/-! ## Declarations -/

theorem classBody_eq_of_agree {aliases : Aliases} (h : lib.Agree lib' c) :
    classBody ⟨aliases, lib⟩ c = classBody ⟨aliases, lib'⟩ c := by
  have htypes : (⟨aliases, lib⟩ : Mapper).mapType = (⟨aliases, lib'⟩ : Mapper).mapType :=
    mapType_congr h.contains_eq
  have hown : ∀ d, (∀ ref ∈ d.referencedNames, lib.LeadsTo c ref) →
      ownPieces ⟨aliases, lib⟩ d = ownPieces ⟨aliases, lib'⟩ d := by
    intro d hd
    refine ownPieces_congr htypes ?_
    funext s name
    exact h.agreeOn.resolve?_eq hd s name
  have hc : ∀ ref ∈ c.referencedNames, lib.LeadsTo c ref := fun ref href => .inr (.inl href)
  rw [classBody, classBody, ← h.agreeOn.ancestors_eq hc]
  refine bodyPieces_congr (fun d hd => hown d fun ref href => ?_) [c.name] (hown c hc)
  exact .inr (.inr ⟨d, Library.reaches_of_mem_ancestors hd, href⟩)

/-- **A declaration is local.** Libraries with the same root and the same
names that have the same records of a class and of all classes below it
declare the class with the same text, whatever their other records are. -/
theorem declarationText_eq_of_agree (cwd : String) (config : Config) (hroot : lib.root = lib'.root)
    (h : lib.Agree lib' c) (inNamespace : Bool) :
    declarationText cwd config lib inNamespace c =
      declarationText cwd config lib' inNamespace c := by
  have htypes : (mapperOf config lib).mapType = (mapperOf config lib').mapType :=
    mapType_congr h.contains_eq
  have hbody : classBody (mapperOf config lib) c = classBody (mapperOf config lib') c :=
    classBody_eq_of_agree h
  rw [declarationText, declarationText, classPieces, classPieces, classHead_congr htypes,
    constructorParams?_congr htypes, hbody, hroot]

/-- A class that includes a mixin. -/
def including : ClassRecord :=
  { (default : ClassRecord) with name := "a.C", kind := .plain, mixins := ["a.M"] }

/-- A class that neither of them leads to. -/
def stranger (isAbstract : Bool) : ClassRecord :=
  { (default : ClassRecord) with name := "a.X", kind := .plain, isAbstract := isAbstract }

/-- The three of them. -/
def besideStranger (isAbstract : Bool) : Library where
  root := ""
  classes := .ofList [("a.C", including), ("a.M", included), ("a.X", stranger isAbstract)]
  named := by cases isAbstract <;> decide

theorem eq_included_of_reaches {isAbstract : Bool}
    (h : (besideStranger isAbstract).Reaches "a.C" including.referencedNames d) : d = included := by
  induction h with
  | start hname hc _ =>
    rw [List.mem_singleton.1 (hname : _ ∈ ["a.M"])] at hc
    exact (Option.some.inj hc).symm
  | step _ hname _ _ ih =>
    rw [ih] at hname
    cases hname

theorem declarationText_besideStranger :
    (besideStranger true).root = (besideStranger false).root ∧
      (besideStranger true).Agree (besideStranger false) including ∧
      (besideStranger true).find? "a.X" ≠ (besideStranger false).find? "a.X" ∧
      declarationText "/" .default (besideStranger true) true including =
        declarationText "/" .default (besideStranger false) true including := by
  have hnames : (besideStranger true).names = (besideStranger false).names := by decide
  have hagree : (besideStranger true).Agree (besideStranger false) including := by
    refine ⟨fun name => by rw [hnames], ⟨rfl, rfl⟩, fun d hd => ?_⟩
    rw [eq_included_of_reaches hd]
    rfl
  have hroot : (besideStranger true).root = (besideStranger false).root := rfl
  refine ⟨hroot, hagree, fun heq => ?_,
    declarationText_eq_of_agree "/" .default hroot hagree true⟩
  have habstract : (stranger true).isAbstract = (stranger false).isAbstract :=
    congrArg ClassRecord.isAbstract (Option.some.inj heq)
  cases habstract

end Ambient
