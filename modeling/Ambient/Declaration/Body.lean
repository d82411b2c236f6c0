import Ambient.Declaration.Method
import Ambient.Library.Ancestry
import Ambient.Library.Resolve
import Ambient.Seen

/-!
# Class bodies

The body of a class lists its own methods, then the bodies of its mixins,
each below a marker with the name of the mixin. Types, kind, visibility and
whether a property is asynchronous come from the resolved definition;
everything else is what the class itself declares. An interface has
neither visibilities nor abstract members nor overrides.

A mixin is included wherever it is listed, so a mixin that two mixins share
is written twice, but never inside itself: the path of the bodies being
written holds no class twice.
-/

namespace Ambient

open Annotation

/-- A part of a class body. -/
inductive BodyPiece where
  | method (method : Method)
  /-- The marker before the body of a mixin. -/
  | mixin (name : String)

/-- A method is written unless it is private. -/
def visible (m : Method) : List BodyPiece :=
  if m.access = .privateAccess then [] else [.method m]

/-! ## Functions -/

/-- The member that a name resolves to and whether it is an override. -/
def resolveMember (lib : Library) (c : ClassRecord) (s : Section) (name : String)
    (declared : Member) : Member × Bool :=
  match lib.resolve? c s name with
  | some ⟨.method member, isOverride⟩ => (member, isOverride)
  | _ => (declared, false)

/-- The method for one entry of a member table; an entry that resolves to a
value has none. -/
def methodOf? (m : Mapper) (c : ClassRecord) (s : Section) (name : String) (declared : Member) :
    Option Method :=
  let (member, isOverride) := resolveMember m.library c s name declared
  if member.kind = .function then
    some {
      name := name
      access := if c.isInterface then .unspecified else member.access
      isStatic := s = .statics
      isAbstract := !c.isInterface && declared.isAbstract
      isOverride := !c.isInterface && isOverride
      fromMixin := declared.fromMixin
      params := renderParams m member.params
      returnType := renderReturn m member.returnType
      doc := declared.doc }
  else none

/-- The methods of a member table, in its order. -/
def methodPieces (m : Mapper) (c : ClassRecord) (s : Section) (t : Table Member) :
    List BodyPiece :=
  t.entries.flatMap fun (name, declared) => ((methodOf? m c s name declared).map visible).getD []

/-! ## Accessors -/

/-- What one accessor of a property looks like. -/
structure Accessor where
  name : String
  params : String
  returnType : String
  description : String

/-- The accessors of a property of the given type. A truth value can also be
asked for by `is`; an asynchronous property has a second set. -/
def accessors (name type : String) (isAsync : Bool) : List Accessor :=
  let capital := Text.capitalize name
  let isFlag := type = "boolean"
  let waiting := ", waiting for pending changes"
  let promise := "globalThis.Promise<" ++ type ++ ">"
  let gets := "Gets the " ++ name ++ " property"
  let sets := "Sets the " ++ name ++ " property"
  [⟨"get" ++ capital, "", type, gets⟩] ++
    (if isFlag then [⟨"is" ++ capital, "", type, gets⟩] else []) ++
    [⟨"set" ++ capital, "value: " ++ type, "void", sets⟩,
      ⟨"reset" ++ capital, "", "void", "Resets the " ++ name ++ " property"⟩] ++
    if isAsync then
      [⟨"get" ++ capital ++ "Async", "", promise, gets ++ waiting⟩] ++
        (if isFlag then [⟨"is" ++ capital ++ "Async", "", promise, gets ++ waiting⟩] else []) ++
        [⟨"set" ++ capital ++ "Async", "value: " ++ type, "globalThis.Promise<void>",
          sets ++ waiting⟩]
    else []

/-- The property that a name resolves to and whether it is an override. -/
def resolveProperty (lib : Library) (c : ClassRecord) (name : String) (declared : Property) :
    Property × Bool :=
  match lib.resolve? c .properties name with
  | some ⟨.property property, isOverride⟩ => (property, isOverride)
  | _ => (declared, false)

/-- The accessors of one property as methods. -/
def accessorMethods (m : Mapper) (c : ClassRecord) (name : String) (declared : Property) :
    List Method :=
  let (property, isOverride) := resolveProperty m.library c name declared
  (accessors name (m.mapRef property.check) property.isAsync).map fun a => {
    name := a.name
    access := if c.isInterface then .unspecified else property.access
    isStatic := false
    isAbstract := false
    isOverride := !c.isInterface && isOverride
    fromMixin := false
    params := a.params
    returnType := a.returnType
    doc := ("* " ++ a.description) :: declared.doc }

/-- The accessors of a property table, in its order; a group has none. -/
def propertyPieces (m : Mapper) (c : ClassRecord) : List BodyPiece :=
  c.properties.entries.flatMap fun (name, declared) =>
    if declared.isGroup then [] else (accessorMethods m c name declared).flatMap visible

/-- The accessor of a singleton. -/
def singletonMethod (m : Mapper) (c : ClassRecord) : Method where
  name := "getInstance"
  access := .publicAccess
  isStatic := true
  isAbstract := false
  isOverride := false
  fromMixin := false
  params := ""
  returnType := m.mapType c.name
  doc := []

/-- What a class declares itself. -/
def ownPieces (m : Mapper) (c : ClassRecord) : List BodyPiece :=
  (if c.isSingleton then [.method (singletonMethod m c)] else []) ++
    methodPieces m c .statics c.statics ++ methodPieces m c .members c.members ++
    propertyPieces m c

/-! ## Mixins -/

/-- The mixins that are not on the path of the bodies being written. -/
def notOnPath (mixins : List ClassRecord) (path : List String) : List ClassRecord :=
  mixins.filter fun d => d.name ∉ path

theorem length_notOnPath_lt {mixins : List ClassRecord} {path : List String} {d : ClassRecord}
    (hd : d ∈ mixins) (hpath : d.name ∉ path) :
    (notOnPath mixins (d.name :: path)).length < (notOnPath mixins path).length := by
  refine length_filter_lt (fun x hx => ?_) hd (by simpa using hpath) (by simp)
  simp only [List.mem_cons, not_or, decide_eq_true_eq] at hx ⊢
  exact hx.2

/-- The body of a class: its own pieces and the bodies of its mixins. `mixins`
are the mixins in the ancestry of the class being declared; another name
has no body. -/
def bodyPieces (m : Mapper) (mixins : List ClassRecord) (path : List String) (c : ClassRecord) :
    List BodyPiece :=
  ownPieces m c ++ c.mixins.flatMap fun name =>
    if _hpath : name ∈ path then []
    else
      BodyPiece.mixin name ::
        match _hfind : mixins.find? (·.name = name) with
        | none => []
        | some d => bodyPieces m mixins (name :: path) d
  termination_by (notOnPath mixins path).length
  decreasing_by
    have hname : d.name = name := by simpa using List.find?_some _hfind
    exact hname ▸ length_notOnPath_lt (List.mem_of_find?_eq_some _hfind) (hname.symm ▸ _hpath)

/-- The body in the declaration of a class. -/
def classBody (m : Mapper) (c : ClassRecord) : List BodyPiece :=
  bodyPieces m (m.library.ancestors .mixin c) [c.name] c

end Ambient
