import Ambient.Declaration.Body

/-!
# Class declarations

A declaration is a comment with the full name of the class, a head line
with what it extends and implements, for a plain class its constructor,
and the body. Outside of namespaces the head says `declare`.
-/

namespace Ambient

open Annotation

/-- Superclasses that exist without being declared. -/
def builtinSuperclasses : List String := ["Object", "Array", "Error"]

/-- The type that a class can extend under this name: neither a builtin one
nor one of which nothing is known. -/
def parentType? (m : Mapper) (name : String) : Option String :=
  if name ∈ builtinSuperclasses then none
  else
    let type := m.mapType name
    if type.toList = anyType then none else some type

/-- The types a class extends. Only an interface can extend more than the
first name. -/
def parentTypes (m : Mapper) (c : ClassRecord) : List String :=
  (if c.isInterface then c.superNames else c.superNames.take 1).filterMap (parentType? m)

/-- The types a class implements; an interface implements none. -/
def implementedTypes (m : Mapper) (c : ClassRecord) : List String :=
  if c.isInterface then [] else c.interfaces.map m.mapType

/-- A clause of the head, unless it lists nothing. -/
def clause (word : String) (types : List String) : String :=
  if types.isEmpty then "" else " " ++ word ++ " " ++ ", ".intercalate types

/-- The words before the short name. -/
def declarationKeyword (c : ClassRecord) : String :=
  if c.isInterface then "interface " else if c.isAbstract then "abstract class " else "class "

/-- The comment and the head line of a declaration. -/
def classHead (m : Mapper) (inNamespace : Bool) (c : ClassRecord) : String :=
  "  // " ++ c.name ++ "\n  " ++ (if inNamespace then "" else "declare ") ++
    declarationKeyword c ++ c.shortName ++ clause "extends" (parentTypes m c) ++
    clause "implements" (implementedTypes m c) ++ " \x7b\n"

/-- The parameters of the declared constructor; only a plain class has one. -/
def constructorParams? (m : Mapper) (c : ClassRecord) : Option String :=
  if c.kind = .plain then c.construct.map fun member => renderParams m member.params else none

/-- The end of a declaration. -/
def classTail : String := "\n  \x7d\n"

end Ambient
