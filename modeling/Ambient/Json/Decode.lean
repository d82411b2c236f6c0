import Ambient.Json.Fault

/-!
# Decoding

A reader takes a node to a value or to the first fault it meets, in the
order of the text. A field that no reader asks for only has to be JSON
(`Node.sound`); what is decoded must moreover stay within a number of
nested levels, and its numbers and strings must have values.

Some values are recognised by their form and not by what is expected of
them. Such a value is read as a whole first (`Node.settle`), so a fault
inside it comes before the question which form it has.
-/

namespace Ambient.Json

/-- A reader: the levels that may still be entered, and the node. -/
abbrev Reader (α : Type) := Nat → Node → Except Fault α

/-- The levels of arrays and objects that a decoded text may nest. -/
def levels : Nat := 127

/-- One level further in. -/
def enter : Nat → Except Fault Nat
  | 0 => .error .malformed
  | n + 1 => .ok n

/-- A container counts only with its closing bracket. -/
def whenClosed {α : Type} (closed : Bool) (a : α) : Except Fault α :=
  if closed then .ok a else .error .malformed

/-! ## Values that are not decoded -/

mutual

/-- The node is complete JSON. -/
def Node.sound : Node → Bool
  | .broken => false
  | .null | .bool _ | .number _ | .string _ => true
  | .array items closed => closed && soundItems items
  | .object fields closed => closed && soundFields fields

/-- All items are complete. -/
def soundItems : List Node → Bool
  | [] => true
  | n :: items => n.sound && soundItems items

/-- The values of all fields are complete. -/
def soundFields : List (Key × Node) → Bool
  | [] => true
  | (_, n) :: fields => n.sound && soundFields fields

end

/-- Passes over a value. -/
def skip (n : Node) : Except Fault Unit :=
  if n.sound then .ok () else .error .malformed

/-! ## Values read before their form is known -/

mutual

/-- The node can be read as a whole: it is complete, nests no deeper than
the levels left, and everything in it has a value. -/
def Node.settles : Nat → Node → Bool
  | _, .broken | _, .string none => false
  | _, .null | _, .bool _ | _, .string (some _) => true
  | _, .number numeral => numeral.value.isSome
  | 0, .array _ _ | 0, .object _ _ => false
  | left + 1, .array items closed => closed && settleItems left items
  | left + 1, .object fields closed => closed && settleFields left fields

/-- All items can be read. -/
def settleItems : Nat → List Node → Bool
  | _, [] => true
  | left, n :: items => n.settles left && settleItems left items

/-- All fields can be read. -/
def settleFields : Nat → List (Key × Node) → Bool
  | _, [] => true
  | left, (.text _, n) :: fields => n.settles left && settleFields left fields
  | _, (.unpaired, _) :: _ | _, (.misplaced _, _) :: _ => false

end

/-- A value recognised by its form: `form` sees a node that can be read as a
whole. -/
def anyOf {α : Type} (choice : String) (form : Node → Option α) : Reader α := fun left n =>
  if n.settles left then (form n).elim (.error (.noVariant choice)) .ok
  else .error .malformed

/-- The texts of a list of strings. -/
def texts? : List Node → Option (List String)
  | [] => some []
  | .string (some s) :: items => (texts? items).map (s :: ·)
  | _ :: _ => none

/-! ## Readers -/

/-- A string. -/
def text : Reader String
  | _, .string (some s) => .ok s
  | _, n => n.refuse "a string"

/-- A string that names a file. -/
def path : Reader String
  | _, .string (some s) => .ok s
  | _, n => n.refuse "path string"

/-- A truth value. -/
def flag : Reader Bool
  | _, .bool b => .ok b
  | _, n => n.refuse "a boolean"

/-- A value that may be absent. -/
def optional {α : Type} (read : Reader α) : Reader (Option α)
  | _, .null => .ok none
  | left, n => (read left n).map some

/-- The name of one of a fixed set of cases: a string, or an object with that
name as its only key and null as its value. -/
def caseName : Reader String
  | _, .string (some s) => .ok s
  | left, .object ((key, n) :: fields) closed => do
    let _ ← enter left
    match key, n with
    | .text s, .null => if fields.isEmpty && closed then .ok s else .error .malformed
    | .text _, n => n.refuse "unit"
    | .unpaired, _ => .error .malformed
    | .misplaced t, _ => t.node.refuse "variant identifier"
  | _, _ => .error .malformed

/-- A list, item by item. -/
def list {α : Type} (read : Reader α) : Reader (List α)
  | left, .array items closed => do
    let left ← enter left
    let values ← items.mapM (read left)
    whenClosed closed values
  | _, n => n.refuse "a sequence"

end Ambient.Json
