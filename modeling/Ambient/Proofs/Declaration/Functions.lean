import Ambient.Proofs.Declaration.Inclusion
import Ambient.Proofs.Library.Resolution

/-!
# Which entries are written as methods

An entry of a member table is written as a method when the member it resolves
to is a function, and visible if the class is no interface
(`map_methodName?_methodPieces`). Whether the entry itself declares a function
is not asked. It makes no difference as long as the two are of one kind; but
an entry without types can resolve to a member of the other kind, in any class
that is searched, and then a value is written as a method, or a function is
left out (`methods_of_written`).
-/

namespace Ambient

open Annotation

variable {m : Mapper} {lib : Library} {c d : ClassRecord} {path : List String}
variable {s : Section} {name : String} {declared : Member}

/-- The members of a section; properties are no members. -/
def ClassRecord.memberTable (d : ClassRecord) : Section → Table Member
  | .statics => d.statics
  | .members => d.members
  | .properties => .empty

theorem ClassRecord.definition?_of_mem_memberTable
    (h : (name, declared) ∈ (d.memberTable s).entries) :
    d.definition? s name = some (.method declared) := by
  cases s with
  | statics => exact congrArg (Option.map _) (Table.get?_eq_some_iff.2 h)
  | members => exact congrArg (Option.map _) (Table.get?_eq_some_iff.2 h)
  | properties => cases h

/-! ## What an entry resolves to -/

namespace Library

/-- The member that an entry resolves to. -/
def memberFor (lib : Library) (d : ClassRecord) (s : Section) (name : String)
    (declared : Member) : Member :=
  (resolveMember lib d s name declared).1

/-- An entry resolves to what it declares or, when that has no types, to a
member with types that a class which is searched declares under its name. -/
theorem memberFor_eq_or (h : (name, declared) ∈ (d.memberTable s).entries) :
    lib.memberFor d s name declared = declared ∨
      ¬ declared.isSubstantial ∧ (lib.memberFor d s name declared).isSubstantial ∧
        ∃ e, lib.Reaches d.name d.referencedNames e ∧
          e.definition? s name = some (.method (lib.memberFor d s name declared)) := by
  have hdefined := ClassRecord.definition?_of_mem_memberTable h
  rw [memberFor, resolveMember]
  cases hr : lib.resolve? d s name with
  | none => exact .inl rfl
  | some r =>
    obtain ⟨x | p, isOverride⟩ := r
    · exact (definition_of_resolve? hdefined hr).imp_left Definition.method.inj
    · exact .inl rfl

/-- The entry is written as a method: it resolves to a function, which only a
class that is no interface can hide. -/
def writesMethod (lib : Library) (d : ClassRecord) (s : Section) (name : String)
    (declared : Member) : Bool :=
  (lib.memberFor d s name declared).kind = .function &&
    (d.isInterface || (lib.memberFor d s name declared).access ≠ .privateAccess)

end Library

/-! ## The methods of a table -/

/-- The name of the method that a piece is. -/
def BodyPiece.methodName? : BodyPiece → Option String
  | .method x => some x.name
  | .mixin _ => none

/-- What is written for an entry is one method of its name, or nothing. -/
theorem map_methodName?_methodOf? :
    (((methodOf? m d s name declared).map visible).getD []).map BodyPiece.methodName? =
      if m.library.writesMethod d s name declared then [some name] else [] := by
  have hmember : (resolveMember m.library d s name declared).1 =
      m.library.memberFor d s name declared := rfl
  rw [methodOf?, Library.writesMethod]
  simp only [hmember]
  cases hkind : (m.library.memberFor d s name declared).kind with
  | property => rfl
  | function =>
    cases hinterface : d.isInterface <;>
      cases haccess : (m.library.memberFor d s name declared).access <;> rfl

/-- **The methods of a table are those of its entries that are written**, in
its order. -/
theorem map_methodName?_methodPieces (t : Table Member) :
    (methodPieces m d s t).map BodyPiece.methodName? =
      (t.entries.filter fun e => m.library.writesMethod d s e.1 e.2).map fun e => some e.1 := by
  rw [methodPieces, List.map_flatMap]
  induction t.entries with
  | nil => rfl
  | cons e es ih =>
    rw [List.flatMap_cons, ih, map_methodName?_methodOf?, List.filter_cons]
    split <;> rfl

/-! ## Entries that are written as they are declared -/

/-- What an entry declares is what is written: a function that is not hidden as
a method, and nothing else as one. -/
def Library.WritesDeclared (lib : Library) (d : ClassRecord) (s : Section) (name : String)
    (declared : Member) : Prop :=
  (declared.kind = .function → (lib.memberFor d s name declared).access ≠ .privateAccess →
    lib.writesMethod d s name declared) ∧
  (declared.kind ≠ .function → lib.writesMethod d s name declared = false)

/-- That is so when it resolves to a member of its own kind. To one of another
kind it may resolve only where neither is written. -/
theorem Library.writesDeclared_iff :
    lib.WritesDeclared d s name declared ↔
      (lib.memberFor d s name declared).kind = declared.kind ∨
        (lib.memberFor d s name declared).access = .privateAccess ∧
          (declared.kind = .function ∨ d.isInterface = false) := by
  rw [WritesDeclared, writesMethod]
  cases (lib.memberFor d s name declared).kind <;> cases declared.kind <;>
    cases d.isInterface <;> simp

/-- **Which entries are methods.** Every written body has, after the accessor
of a singleton, the methods of its two member tables, each in the order of the
table and one for every entry that resolves to a function, but in a class that
is no interface to one that is not private. So an entry is written as it is
declared exactly if it resolves to a member of its own kind, or to a private
one where that keeps no more than a function from being written. And it
resolves to what it declares itself or, without types, to a member with types
that a class which can be reached declares under its name. -/
theorem methods_of_written (h : Written m c path d) :
    (bodyPieces m (m.library.ancestors .mixin c) path d <:+: classBody m c) ∧
    bodyPieces m (m.library.ancestors .mixin c) path d =
      (if d.isSingleton then [.method (singletonMethod m d)] else []) ++
        methodPieces m d .statics (d.memberTable .statics) ++
        methodPieces m d .members (d.memberTable .members) ++ propertyPieces m d ++
        d.mixins.flatMap (mixinPieces m (m.library.ancestors .mixin c) path) ∧
    ∀ s,
      (methodPieces m d s (d.memberTable s)).map BodyPiece.methodName? =
        ((d.memberTable s).entries.filter fun e => m.library.writesMethod d s e.1 e.2).map
          (fun e => some e.1) ∧
      ∀ name declared, (name, declared) ∈ (d.memberTable s).entries →
        (m.library.WritesDeclared d s name declared ↔
          (m.library.memberFor d s name declared).kind = declared.kind ∨
            (m.library.memberFor d s name declared).access = .privateAccess ∧
              (declared.kind = .function ∨ d.isInterface = false)) ∧
        (m.library.memberFor d s name declared = declared ∨
          ¬ declared.isSubstantial ∧ (m.library.memberFor d s name declared).isSubstantial ∧
            ∃ e, m.library.Reaches d.name d.referencedNames e ∧
              e.definition? s name =
                some (.method (m.library.memberFor d s name declared))) := by
  refine ⟨h.infix_classBody, bodyPieces_eq, fun s => ?_⟩
  exact ⟨map_methodName?_methodPieces _, fun name declared hentry =>
    ⟨Library.writesDeclared_iff, Library.memberFor_eq_or hentry⟩⟩

/-- A value without types. -/
def slot : Member := { giving with kind := .property, returnType := none }

/-- A class with such a value. -/
def storing : ClassRecord :=
  { (default : ClassRecord) with
    name := "a.C", kind := .plain, superclasses := some ["a.B"]
    members := .ofList [("size", slot)] }

/-- Its superclass has a function of that name. -/
def measuring : ClassRecord :=
  { (default : ClassRecord) with
    name := "a.B", kind := .plain, members := .ofList [("size", giving)] }

/-- The two of them. -/
def measured : Library where
  root := ""
  classes := .ofList [("a.B", measuring), ("a.C", storing)]
  named := by decide

/-- A mapper without aliases for the two classes. -/
def measuredMapper : Mapper := ⟨[], measured⟩

/-- The value resolves to the function. -/
theorem memberFor_storing : measured.memberFor storing .members "size" slot = giving := by
  have hsearch : measured.searchOrder storing = [(true, measuring)] := by
    have hB : measured.find? "a.B" = some measuring := rfl
    have hrefs : storing.interfaceNames.map (false, ·) ++ storing.inheritedNames.map (true, ·) =
        [(true, "a.B")] := rfl
    rw [Library.searchOrder, hrefs, Library.walk_cons_new hB (by decide)]
    exact congrArg _ Library.walk_nil
  have hresolve : measured.resolve? storing .members "size" = some ⟨.method giving, true⟩ := by
    rw [Library.resolve?, hsearch]
    rfl
  rw [Library.memberFor, resolveMember, hresolve]

/-- So the entry is written as a method. -/
theorem writesMethod_storing :
    measuredMapper.library.writesMethod storing .members "size" slot = true := by
  have hmember : measuredMapper.library.memberFor storing .members "size" slot = giving :=
    memberFor_storing
  rw [Library.writesMethod, hmember]
  rfl

theorem filter_writesMethod_storing :
    ((storing.memberTable .members).entries.filter fun e =>
      measuredMapper.library.writesMethod storing .members e.1 e.2) = [("size", slot)] :=
  List.filter_cons_of_pos writesMethod_storing

theorem methods_storing :
    Written measuredMapper storing ["a.C"] storing ∧
      (methodPieces measuredMapper storing .members storing.members).map BodyPiece.methodName? =
        [some "size"] := by
  have hown : Written measuredMapper storing ["a.C"] storing := .own
  obtain ⟨-, -, htables⟩ := methods_of_written hown
  obtain ⟨hnames, -⟩ := htables .members
  rw [filter_writesMethod_storing] at hnames
  exact ⟨hown, hnames⟩

/-- **A value can be written as a method.** The entry declares no function, and
one is written for it. -/
theorem methods_storing_ne :
    Written measuredMapper storing ["a.C"] storing ∧
      ("size", slot) ∈ (storing.memberTable .members).entries ∧ slot.kind ≠ .function ∧
      (methodPieces measuredMapper storing .members storing.members).map BodyPiece.methodName? =
        [some "size"] ∧
      ¬ measuredMapper.library.WritesDeclared storing .members "size" slot := by
  have hnames : (methodPieces measuredMapper storing .members
      (storing.memberTable .members)).map BodyPiece.methodName? = _ :=
    map_methodName?_methodPieces _
  rw [filter_writesMethod_storing] at hnames
  refine ⟨.own, List.mem_singleton.2 rfl, by decide, hnames, fun hdeclared => ?_⟩
  have hnone := hdeclared.2 (by decide)
  rw [writesMethod_storing] at hnone
  cases hnone

end Ambient
