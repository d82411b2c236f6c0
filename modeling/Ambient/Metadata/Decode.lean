import Ambient.Json.Record
import Ambient.Metadata.Basic

/-!
# Metadata from JSON

The records as they are written: which key gives which field, what is the
value of a field that is missing, and which forms a value may have.
-/

namespace Ambient

open Json

/-! ## Values of several forms -/

/-- One name or a list of names. -/
def names? : Node → Option (List String)
  | .string (some s) => some [s]
  | .array items _ => texts? items
  | _ => none

/-- An integer from zero on, within 32 bits. -/
def dimensions? (n : Numeral) : Option Nat :=
  match n.value with
  | some (.integer (.ofNat d)) => if d < Nat.pow 2 32 then some d else none
  | _ => none

/-- A type with its dimensions: one `name`, at most one `dimensions`, and
any other keys. -/
def described? (fields : List (Key × Node)) : Option TypeRef :=
  match fields.filter (·.1 = .text "name"), fields.filter (·.1 = .text "dimensions") with
  | [(_, .string (some name))], [] => some (.described name 0)
  | [(_, .string (some name))], [(_, .number n)] => (dimensions? n).map (.described name)
  | _, _ => none

mutual

/-- A type: a name, a list of alternatives, or a name with dimensions. -/
def TypeRef.ofNode? : Node → Option TypeRef
  | .string (some name) => some (.named name)
  | .array items _ => (TypeRef.ofNodes? items).map .union
  | .object fields _ => described? fields
  | _ => none

/-- A list of types. -/
def TypeRef.ofNodes? : List Node → Option (List TypeRef)
  | [] => some []
  | n :: items =>
    match TypeRef.ofNode? n, TypeRef.ofNodes? items with
    | some t, some ts => some (t :: ts)
    | _, _ => none

end

/-- A type reference. -/
def typeRef : Reader TypeRef := anyOf "TypeRef" TypeRef.ofNode?

/-- The name or names a class extends. -/
def superclassNames : Reader (List String) := anyOf "SuperClass" names?

/-- One name, a list of names, or null for none. -/
def oneOrMany : Reader (List String) := anyOf "OneOrMany" fun
  | .null => some []
  | n => names? n

/-- A truth value, or the list of the properties in the group. -/
def flagOrList : Reader Bool := anyOf "FlagOrList" fun
  | .bool b => some b
  | .array items _ => (texts? items).map (!·.isEmpty)
  | _ => none

/-! ## Cases -/

/-- Anything but an interface or a mixin is a class. -/
def classKind : Reader ClassKind := fun left n => (caseName left n).map fun
  | "interface" => .interface
  | "mixin" => .mixin
  | _ => .plain

/-- Anything but a function holds a value. -/
def memberKind : Reader MemberKind := fun left n => (caseName left n).map fun
  | "function" => .function
  | _ => .property

/-- Any word that is no visibility leaves it unspecified. -/
def accessLevel : Reader Access := fun left n => (caseName left n).map fun
  | "public" => .publicAccess
  | "protected" => .protectedAccess
  | "private" => .privateAccess
  | _ => .unspecified

/-! ## Records -/

/-- A parameter. -/
def paramSchema : Schema Param where
  title := "Param"
  blank := ⟨"", none, false⟩
  fields := [
    ("name", sets (fun v r => { r with name := v }) text),
    ("type", sets (fun v r => { r with type := v }) (optional typeRef)),
    ("optional", sets (fun v r => { r with isOptional := v }) flag)]
  required := some "name"
  strict := false

/-- A member or constructor. -/
def memberSchema : Schema Member where
  title := "MemberMetadata"
  blank := ⟨.property, .unspecified, false, false, false, false, none, none, []⟩
  fields := [
    ("type", sets (fun v r => { r with kind := v }) memberKind),
    ("access", sets (fun v r => { r with access := v }) accessLevel),
    ("static", sets (fun v r => { r with isStatic := v }) flag),
    ("abstract", sets (fun v r => { r with isAbstract := v }) flag),
    ("async", sets (fun v r => { r with isAsync := v }) flag),
    ("mixin", sets (fun v r => { r with fromMixin := v }) flag),
    ("params", sets (fun v r => { r with params := v }) (optional (list paramSchema.record))),
    ("returnType", sets (fun v r => { r with returnType := v }) (optional typeRef)),
    ("jsdoc", sets (fun v r => { r with doc := v }) (list text))]
  required := none
  strict := false

/-- A property. -/
def propertySchema : Schema Property where
  title := "PropertyMetadata"
  blank := ⟨none, false, false, .unspecified, []⟩
  fields := [
    ("check", sets (fun v r => { r with check := v }) (optional typeRef)),
    ("group", sets (fun v r => { r with isGroup := v }) flagOrList),
    ("async", sets (fun v r => { r with isAsync := v }) flag),
    ("access", sets (fun v r => { r with access := v }) accessLevel),
    ("jsdoc", sets (fun v r => { r with doc := v }) (list text))]
  required := none
  strict := false

/-- An event. -/
def eventSchema : Schema Event where
  title := "EventMetadata"
  blank := ⟨none, []⟩
  fields := [
    ("type", sets (fun v r => { r with type := v }) (optional typeRef)),
    ("jsdoc", sets (fun v r => { r with doc := v }) (list text))]
  required := none
  strict := false

/-- The metadata of a class. -/
def classSchema : Schema ClassRecord where
  title := "ClassMetadata"
  blank := ⟨"", .plain, false, false, none, [], [], none, .empty, .empty, .empty, .empty, none⟩
  fields := [
    ("className", sets (fun v r => { r with name := v }) text),
    ("type", sets (fun v r => { r with kind := v }) classKind),
    ("abstract", sets (fun v r => { r with isAbstract := v }) flag),
    ("isSingleton", sets (fun v r => { r with isSingleton := v }) flag),
    ("superClass", sets (fun v r => { r with superclasses := v }) (optional superclassNames)),
    ("interfaces", sets (fun v r => { r with interfaces := v }) oneOrMany),
    ("mixins", sets (fun v r => { r with mixins := v }) oneOrMany),
    ("construct", sets (fun v r => { r with construct := v }) (optional memberSchema.record)),
    ("statics", sets (fun v r => { r with statics := v }) (table memberSchema.record)),
    ("members", sets (fun v r => { r with members := v }) (table memberSchema.record)),
    ("properties", sets (fun v r => { r with properties := v }) (table propertySchema.record)),
    ("events", sets (fun v r => { r with events := v }) (table eventSchema.record)),
    ("classFilename", sets (fun v r => { r with filename := v }) (optional text))]
  required := some "className"
  strict := false

/-- A class record. -/
def classRecord : Reader ClassRecord := classSchema.record

end Ambient
