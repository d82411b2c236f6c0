import Ambient.Json.Tree
import Ambient.Text.Quoted

/-!
# Faults of JSON data

The ways in which a text fails to describe what it should describe, and
their wording. A text that is not JSON is reported without a position.
-/

namespace Ambient.Json

/-- What was found in place of the thing expected. -/
inductive Found where
  | null
  | bool (value : Bool)
  | number (value : Number)
  | string (text : String)
  | sequence
  | map
  deriving DecidableEq, Repr

/-- Why a text cannot be decoded. -/
inductive Fault where
  /-- The text is not JSON, nests too deep, or holds a number or a string
  without a value. -/
  | malformed
  | mismatch (found : Found) (expected : String)
  | missingField (key : String)
  | repeatedField (key : String)
  | unknownField (key : String) (known : List String)
  /-- A sequence that ends before a required field of a record. -/
  | tooShort (position : Nat) (record : String) (size : Nat)
  /-- A value of none of the forms that a choice admits. -/
  | noVariant (choice : String)
  deriving DecidableEq, Repr

/-- A word of the data, as messages show it. -/
def code (s : String) : String :=
  "`" ++ s ++ "`"

/-- What was found, as messages show it. -/
def Found.text : Found → String
  | .null => "null"
  | .bool value => "boolean " ++ code (if value then "true" else "false")
  | .number (.integer value) => "integer " ++ code (toString value)
  | .number value => "floating point " ++ code value.text
  | .string text => "string " ++ Text.quoted text
  | .sequence => "sequence"
  | .map => "map"

/-- The wording of a fault. -/
def Fault.message : Fault → String
  | .malformed => "<syntax>"
  | .mismatch found expected => "invalid type: " ++ found.text ++ ", expected " ++ expected
  | .missingField key => "missing field " ++ code key
  | .repeatedField key => "duplicate field " ++ code key
  | .unknownField key known =>
    "unknown field " ++ code key ++ ", expected one of " ++
      ", ".intercalate (known.map code)
  | .tooShort position record size =>
    "invalid length " ++ toString position ++ ", expected struct " ++ record ++ " with " ++
      toString size ++ " elements"
  | .noVariant choice => "data did not match any variant of untagged enum " ++ choice

/-- What stands where something else was expected. A container is
recognised by its first bracket; the rest has to be readable. -/
def Node.found : Node → Except Fault Found
  | .broken | .string none => .error .malformed
  | .null => .ok .null
  | .bool value => .ok (.bool value)
  | .number numeral => (numeral.value.map Found.number).elim (.error .malformed) .ok
  | .string (some text) => .ok (.string text)
  | .array _ _ => .ok .sequence
  | .object _ _ => .ok .map

/-- The node is not what was expected. -/
def Node.refuse {α : Type} (n : Node) (expected : String) : Except Fault α :=
  n.found.bind fun found => .error (.mismatch found expected)

end Ambient.Json
