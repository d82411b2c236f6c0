import Ambient.Json.Decode
import Ambient.Table

/-!
# Decoding tables and records

An object with free keys is a table; a key written twice keeps its first
place and its last value. A record has known fields. It is written as an
object, in any order, or as an array of its fields in the order of their
declaration. Every field that is read contributes an update of the record,
and a field that is missing leaves what the blank record has.
-/

namespace Ambient.Json

/-- The fields of an object whose keys are free, in order. -/
def readEntries {α : Type} (read : Node → Except Fault α) :
    Table α → List (Key × Node) → Except Fault (Table α)
  | t, [] => .ok t
  | t, (.text key, n) :: fields => do
    let a ← read n
    readEntries read (t.insert key a) fields
  | _, (.unpaired, _) :: _ | _, (.misplaced _, _) :: _ => .error .malformed

/-- An object with free keys. -/
def table {α : Type} (read : Reader α) : Reader (Table α)
  | left, .object fields closed => do
    let left ← enter left
    let t ← readEntries (read left) .empty fields
    whenClosed closed t
  | _, n => n.refuse "a map"

/-- How the fields of a record are read. -/
structure Schema (ρ : Type) where
  /-- The name of the record in messages. -/
  title : String
  /-- The record before any field is read. -/
  blank : ρ
  /-- The fields in the order of their declaration, each with the update it
  contributes. -/
  fields : List (String × Reader (ρ → ρ))
  /-- The field that has to be there. -/
  required : Option String
  /-- A field that is not known is a fault. -/
  strict : Bool

/-- A reader whose value sets one field of a record. -/
def sets {α ρ : Type} (set : α → ρ → ρ) (read : Reader α) : Reader (ρ → ρ) := fun left n =>
  (read left n).map set

namespace Schema

variable {ρ : Type} (s : Schema ρ)

/-- The known fields of an object, in the order of the text. `seen` holds
the keys read so far: a key read before is a fault as soon as it is met
again. -/
def readFields (left : Nat) : List String → ρ → List (Key × Node) →
    Except Fault (List String × ρ)
  | seen, r, [] => .ok (seen, r)
  | seen, r, (.text key, n) :: fields =>
    match s.fields.lookup key with
    | some read =>
      if key ∈ seen then .error (.repeatedField key)
      else do
        let update ← read left n
        readFields left (key :: seen) (update r) fields
    | none =>
      if s.strict then .error (.unknownField key (s.fields.map Prod.fst))
      else do
        skip n
        readFields left seen r fields
  | _, _, (.unpaired, _) :: _ | _, _, (.misplaced _, _) :: _ => .error .malformed

/-- The fields of an array, by position; `position` is that of the first of
the fields left. Items are taken as long as the array has them. -/
def readItems (left : Nat) (closed : Bool) : Nat → ρ → List (String × Reader (ρ → ρ)) →
    List Node → Except Fault ρ
  | _, r, [], items => if items.isEmpty && closed then .ok r else .error .malformed
  | position, r, (_, read) :: fields, n :: items => do
    let update ← read left n
    readItems left closed (position + 1) (update r) fields items
  | position, r, (key, _) :: fields, [] =>
    if !closed then .error .malformed
    else if s.required = some key then
      .error (.tooShort position s.title s.fields.length)
    else readItems left closed (position + 1) r fields []

/-- A record. -/
def record : Reader ρ
  | left, .object fields closed => do
    let left ← enter left
    let (seen, r) ← s.readFields left [] s.blank fields
    let r ← whenClosed closed r
    match s.required with
    | some key => if key ∈ seen then .ok r else .error (.missingField key)
    | none => .ok r
  | left, .array items closed => do
    let left ← enter left
    s.readItems left closed 0 s.blank s.fields items
  | _, n => n.refuse ("struct " ++ s.title)

end Schema

/-- Decodes a whole text. What follows the value is looked at last. -/
def decode {α : Type} (read : Reader α) (text : String) : Except Fault α := do
  let document := Document.ofText text
  let a ← read levels document.root
  whenClosed document.ended a

end Ambient.Json
