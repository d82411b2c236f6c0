import Ambient.Json.Token

/-!
# Trees of JSON text

Any text has a tree: where it stops being JSON the tree says so. A value
that is not there is `broken`, and an array or object that was broken off
is not `closed` and ends with the last part that was begun. A reader that
walks the tree in order therefore meets the first fault of the text where
the text has it, after everything that stands before it.

Fields keep their order and their repetitions, and where something else than
a string stands in the place of a key, the tree says what it is. The tree is built with the
open containers in a list, so nesting costs no depth of recursion.
-/

namespace Ambient.Json

/-- What stands in the place of a key. -/
inductive Key where
  | text (text : String)
  /-- A string with half of a surrogate pair. -/
  | unpaired
  /-- No string at all; the text breaks here. -/
  | misplaced (token : Token)
  deriving DecidableEq, Repr

/-- The key that a string token makes. -/
def Key.ofString : Option String → Key
  | some s => .text s
  | none => .unpaired

/-- A value as written. -/
inductive Node where
  | broken
  | null
  | bool (value : Bool)
  | number (numeral : Numeral)
  /-- A string; one with half of a surrogate pair has no text. -/
  | string (text : Option String)
  | array (items : List Node) (closed : Bool)
  | object (fields : List (Key × Node)) (closed : Bool)

instance : Inhabited Node := ⟨.broken⟩

/-- A text as a tree. -/
structure Document where
  root : Node
  /-- Nothing but gaps follows the root. -/
  ended : Bool

/-- An open container: its finished parts, latest first, and for an object
the key whose value is being read. -/
inductive Frame where
  | array (items : List Node)
  | object (fields : List (Key × Node)) (key : Key)

/-- What the builder waits for. -/
inductive Builder where
  /-- A value. -/
  | value (frames : List Frame)
  /-- The first item of an array, or its end. -/
  | firstItem (frames : List Frame)
  /-- A comma or the end of the array. -/
  | afterItem (items : List Node) (frames : List Frame)
  /-- A key; only the first may be missing. -/
  | nextKey (first : Bool) (fields : List (Key × Node)) (frames : List Frame)
  | colon (fields : List (Key × Node)) (key : Key) (frames : List Frame)
  /-- A comma or the end of the object. -/
  | afterField (fields : List (Key × Node)) (frames : List Frame)
  /-- The end of the text. -/
  | whole (root : Node)
  | finished (document : Document)

namespace Builder

/-- A complete value takes its place in the innermost open container. -/
def fill (v : Node) : List Frame → Builder
  | [] => .whole v
  | .array items :: frames => .afterItem (v :: items) frames
  | .object fields key :: frames => .afterField ((key, v) :: fields) frames

/-- The tree of a text that breaks inside `v`: every open container is
broken off after it. -/
def breakOff (v : Node) : List Frame → Node
  | [] => v
  | .array items :: frames => breakOff (.array (v :: items).reverse false) frames
  | .object fields key :: frames => breakOff (.object ((key, v) :: fields).reverse false) frames

/-- The builder after a fault inside `v`. -/
def broken (v : Node) (frames : List Frame) : Builder :=
  .finished ⟨breakOff v frames, false⟩

/-- A token where a value is due. -/
def takeValue (t : Token) (frames : List Frame) : Builder :=
  match t with
  | .null => fill .null frames
  | .bool b => fill (.bool b) frames
  | .number n => fill (.number n) frames
  | .string s => fill (.string s) frames
  | .openArray => .firstItem frames
  | .openObject => .nextKey true [] frames
  | _ => broken .broken frames

/-- One token. -/
def step : Builder → Token → Builder
  | .value frames, t => takeValue t frames
  | .firstItem frames, t =>
    if t = .closeArray then fill (.array [] true) frames
    else takeValue t (.array [] :: frames)
  | .afterItem items frames, t =>
    match t with
    | .comma => .value (.array items :: frames)
    | .closeArray => fill (.array items.reverse true) frames
    | _ => broken (.array items.reverse false) frames
  | .nextKey first fields frames, t =>
    match t with
    | .string s => .colon fields (.ofString s) frames
    | .closeObject =>
      if first then fill (.object [] true) frames
      else broken .broken (.object fields (.misplaced t) :: frames)
    | _ => broken .broken (.object fields (.misplaced t) :: frames)
  | .colon fields key frames, t =>
    match t with
    | .colon => .value (.object fields key :: frames)
    | _ => broken .broken (.object fields key :: frames)
  | .afterField fields frames, t =>
    match t with
    | .comma => .nextKey false fields frames
    | .closeObject => fill (.object fields.reverse true) frames
    | _ => broken (.object fields.reverse false) frames
  | .whole root, _ => .finished ⟨root, false⟩
  | .finished d, _ => .finished d

/-- The end of the tokens. -/
def finish : Builder → Document
  | .value frames => ⟨breakOff .broken frames, false⟩
  | .firstItem frames => ⟨breakOff (.array [] false) frames, false⟩
  | .afterItem items frames => ⟨breakOff (.array items.reverse false) frames, false⟩
  | .nextKey _ fields frames => ⟨breakOff (.object fields.reverse false) frames, false⟩
  | .colon fields key frames => ⟨breakOff .broken (.object fields key :: frames), false⟩
  | .afterField fields frames => ⟨breakOff (.object fields.reverse false) frames, false⟩
  | .whole root => ⟨root, true⟩
  | .finished d => d

end Builder

/-- The value that a token is or begins. -/
def Token.node : Token → Node
  | .null => .null
  | .bool b => .bool b
  | .number n => .number n
  | .string s => .string s
  | .openArray => .array [] false
  | .openObject => .object [] false
  | .closeArray | .closeObject | .comma | .colon | .fault => .broken

/-- The tree of a text. -/
def Document.ofText (text : String) : Document :=
  ((tokens text).foldl Builder.step (.value [])).finish

/-- The value of the field with this key, when the node is an object; the
last one counts. -/
def Node.get? (n : Node) (key : String) : Option Node :=
  match n with
  | .object fields _ => (fields.reverse.find? (·.1 = .text key)).map (·.2)
  | _ => none

end Ambient.Json
