import Ambient.Metadata.Name
import Ambient.Table

/-!
# Class metadata

One record describes one class, interface or mixin: what it refers to, and
its members with the types that its annotations give them. A definition
that carries such types is *substantial*; one that does not takes them
from the class's ancestry.
-/

namespace Ambient

/-- What a record describes. -/
inductive ClassKind where
  | interface
  | mixin
  | plain
  deriving DecidableEq, Repr, Inhabited

/-- The declared visibility of a member. -/
inductive Access where
  | publicAccess
  | protectedAccess
  | privateAccess
  | unspecified
  deriving DecidableEq, Repr, Inhabited

/-- Whether a member is callable or holds a value. -/
inductive MemberKind where
  | function
  | property
  deriving DecidableEq, Repr, Inhabited

/-- A type as the annotations give it. -/
inductive TypeRef where
  | named (name : String)
  /-- Alternatives; only a single one says which type it is. -/
  | union (alternatives : List TypeRef)
  /-- A name with a number of array dimensions. -/
  | described (name : String) (dimensions : Nat)
  deriving Repr, Inhabited

/-- The name and the dimensions of a type, if it comes down to one. -/
def TypeRef.resolve? : TypeRef → Option (String × Nat)
  | .named name => some (name, 0)
  | .union [alternative] => alternative.resolve?
  | .union _ => none
  | .described name dimensions => some (name, dimensions)

/-- A declared parameter. -/
structure Param where
  name : String
  type : Option TypeRef
  isOptional : Bool
  deriving Repr, Inhabited

/-- A static member, an instance member or a constructor. -/
structure Member where
  kind : MemberKind
  access : Access
  isStatic : Bool
  isAbstract : Bool
  isAsync : Bool
  /-- The member came into the class from a mixin. -/
  fromMixin : Bool
  /-- None when no parameter list was seen at all. -/
  params : Option (List Param)
  returnType : Option TypeRef
  doc : List String
  deriving Repr, Inhabited

/-- A property, for which accessors are declared. -/
structure Property where
  check : Option TypeRef
  /-- The property stands for several others and has no accessors. -/
  isGroup : Bool
  isAsync : Bool
  access : Access
  doc : List String
  deriving Repr, Inhabited

/-- An event; it is known but declares nothing. -/
structure Event where
  type : Option TypeRef
  doc : List String
  deriving Repr, Inhabited

/-- The metadata of one class. -/
structure ClassRecord where
  name : String
  kind : ClassKind
  isAbstract : Bool
  isSingleton : Bool
  /-- None when the record extends nothing; a class extends one name, an
  interface may extend several. -/
  superclasses : Option (List String)
  interfaces : List String
  mixins : List String
  construct : Option Member
  statics : Table Member
  members : Table Member
  properties : Table Property
  events : Table Event
  /-- The source file, relative to the root of the library. -/
  filename : Option String
  deriving Inhabited

/-- The member tables of a class. -/
inductive Section where
  | statics
  | members
  | properties
  deriving DecidableEq, Repr

/-- What a class declares under a member name. -/
inductive Definition where
  | method (member : Member)
  | property (property : Property)

/-- A member is substantial with a return type or a parameter list in which
every parameter has a type. -/
def Member.isSubstantial (m : Member) : Bool :=
  m.returnType.isSome || m.params.any fun params => params.all (·.type.isSome)

/-- A property is substantial with a type. -/
def Property.isSubstantial (p : Property) : Bool :=
  p.check.isSome

/-- The definition carries types of its own. -/
def Definition.isSubstantial : Definition → Bool
  | .method m => m.isSubstantial
  | .property p => p.isSubstantial

namespace ClassRecord

/-- The record describes an interface. -/
def isInterface (c : ClassRecord) : Bool := c.kind = .interface

/-- The names the class extends. -/
def superNames (c : ClassRecord) : List String := c.superclasses.getD []

/-- What stands before the last dot of the name. -/
def namespaceName (c : ClassRecord) : String := namespaceOf c.name

/-- What stands after the last dot of the name. -/
def shortName (c : ClassRecord) : String := shortNameOf c.name

/-- The source file relative to the root of the library. -/
def sourceFile (c : ClassRecord) : String := c.filename.getD (sourceFileOf c.name)

/-- What the class declares under a name in one of its tables. -/
def definition? (c : ClassRecord) (s : Section) (name : String) : Option Definition :=
  match s with
  | .statics => (c.statics.get? name).map .method
  | .members => (c.members.get? name).map .method
  | .properties => (c.properties.get? name).map .property

end ClassRecord

end Ambient
