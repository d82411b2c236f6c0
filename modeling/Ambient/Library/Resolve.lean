import Ambient.Library.Walk

/-!
# Where a member gets its types

A member takes its types from its own definition if that is substantial,
else from the first substantial definition of the same name in the
ancestry: interfaces before mixins before superclasses, depth first, the
same order at every class. An interface only declares a shape, so types
found through the interfaces of a class do not make its member an
override; types found through its mixins or superclasses do.
-/

namespace Ambient

/-- The names to search as interfaces: what an interface extends are
interfaces too. -/
def ClassRecord.interfaceNames (c : ClassRecord) : List String :=
  c.interfaces ++ if c.isInterface then c.superNames else []

/-- The names to search after the interfaces, mixins before superclasses. -/
def ClassRecord.inheritedNames (c : ClassRecord) : List String :=
  c.mixins ++ if c.isInterface then [] else c.superNames

/-- A definition, and whether the class that uses it overrides it. -/
structure Resolution where
  definition : Definition
  isOverride : Bool

namespace Library

/-- The classes that are searched for a member of `c`, in order, each with
whether the search reached it through a mixin or a superclass of `c`. -/
def searchOrder (lib : Library) (c : ClassRecord) : List (Bool × ClassRecord) :=
  lib.walk (fun inherited d => (d.interfaceNames ++ d.inheritedNames).map (inherited, ·)) [c.name]
    (c.interfaceNames.map (false, ·) ++ c.inheritedNames.map (true, ·))

/-- The substantial definition of a name in a class. -/
def substantial? (s : Section) (name : String) (c : ClassRecord) : Option Definition :=
  (c.definition? s name).filter (·.isSubstantial)

/-- What the member `name` of `c` resolves to, none when `c` declares no such
member. Without a substantial definition anywhere it is its own. -/
def resolve? (lib : Library) (c : ClassRecord) (s : Section) (name : String) :
    Option Resolution :=
  (c.definition? s name).map fun own =>
    if own.isSubstantial then ⟨own, false⟩
    else
      let found := (lib.searchOrder c).findSome? fun (inherited, d) =>
        (substantial? s name d).map (⟨·, inherited⟩)
      found.getD ⟨own, false⟩

end Library

end Ambient
