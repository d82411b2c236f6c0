import Ambient.Library.Walk

/-!
# The ancestry of a class

Everything that a class refers to, directly or through other classes, by
the relation that led there first. What an interface refers to are further
interfaces, whatever the record calls them.
-/

namespace Ambient

/-- How one class refers to another. -/
inductive Relation where
  | superclass
  | interface
  | mixin
  deriving DecidableEq, Repr

/-- The references of a class in the order of discovery: superclasses,
interfaces, mixins. -/
def ClassRecord.references (c : ClassRecord) : List (Relation × String) :=
  let as (r : Relation) (name : String) := (if c.isInterface then .interface else r, name)
  c.superNames.map (as .superclass) ++ c.interfaces.map (as .interface) ++
    c.mixins.map (as .mixin)

namespace Library

/-- The ancestors of a class, each with its relation, in the order of
discovery. The class itself is none of them. -/
def ancestry (lib : Library) (c : ClassRecord) : List (Relation × ClassRecord) :=
  lib.walk (fun _ d => d.references) [c.name] c.references

/-- The ancestors of one relation. -/
def ancestors (lib : Library) (r : Relation) (c : ClassRecord) : List ClassRecord :=
  (lib.ancestry c).filterMap fun (r', d) => if r' = r then some d else none

end Library

end Ambient
