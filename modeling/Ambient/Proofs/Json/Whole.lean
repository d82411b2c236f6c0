import Ambient.Json.Decode
import Ambient.Proofs.Json.Spelling

/-!
# Values that can be read as a whole

A value whose form is to be recognised is read as a whole first. That succeeds
exactly if it is complete, nests no deeper than the levels that are left, has
only numbers in range, and every string in it is a text, the keys of its objects
included (`settles_iff`). A value that a text spells is complete
(`Spells.sound`).
-/

namespace Ambient.Json

namespace Node

/-- Induction over a value, through the items and fields in it. -/
theorem induction {motive : Node → Prop} (broken : motive .broken) (null : motive .null)
    (bool : ∀ value, motive (.bool value)) (number : ∀ numeral, motive (.number numeral))
    (string : ∀ text, motive (.string text))
    (array : ∀ items closed, (∀ item ∈ items, motive item) → motive (.array items closed))
    (object : ∀ fields closed, (∀ field ∈ fields, motive field.2) →
      motive (.object fields closed)) : ∀ n, motive n
  | .broken => broken
  | .null => null
  | .bool value => bool value
  | .number numeral => number numeral
  | .string text => string text
  | .array items closed => array items closed fun item _ =>
      induction broken null bool number string array object item
  | .object fields closed => object fields closed fun field _ =>
      induction broken null bool number string array object field.2
termination_by n => sizeOf n
decreasing_by
  · have hitem : sizeOf item < sizeOf items := List.sizeOf_lt_of_mem ‹_›
    simp only [Node.array.sizeOf_spec]
    omega
  · obtain ⟨key, value⟩ := field
    have hfield : sizeOf (key, value) < sizeOf fields := List.sizeOf_lt_of_mem ‹_›
    simp only [Prod.mk.sizeOf_spec] at hfield
    simp only [Node.object.sizeOf_spec]
    omega

/-! ## How deep a value nests -/

mutual

/-- The levels of arrays and objects in a value. -/
def height : Node → Nat
  | .array items _ => heightItems items + 1
  | .object fields _ => heightFields fields + 1
  | .broken | .null | .bool _ | .number _ | .string _ => 0

/-- The levels in the highest of the items. -/
def heightItems : List Node → Nat
  | [] => 0
  | n :: items => max n.height (heightItems items)

/-- The levels in the highest of the fields. -/
def heightFields : List (Key × Node) → Nat
  | [] => 0
  | (_, n) :: fields => max n.height (heightFields fields)

end

theorem heightItems_le_iff {items : List Node} {left : Nat} :
    heightItems items ≤ left ↔ ∀ item ∈ items, item.height ≤ left := by
  induction items with
  | nil => simp [heightItems]
  | cons n items ih => rw [heightItems, Nat.max_le, ih, List.forall_mem_cons]

theorem heightFields_le_iff {fields : List (Key × Node)} {left : Nat} :
    heightFields fields ≤ left ↔ ∀ field ∈ fields, field.2.height ≤ left := by
  induction fields with
  | nil => simp [heightFields]
  | cons field fields ih => rw [heightFields, Nat.max_le, ih, List.forall_mem_cons]

/-! ## What holds of everything in a value -/

/-- The values in a value, itself among them. -/
inductive Within : Node → Node → Prop
  | self (n : Node) : Within n n
  | item {v item : Node} {items : List Node} {closed : Bool} (hmem : item ∈ items)
      (h : Within v item) : Within v (.array items closed)
  | field {v : Node} {field : Key × Node} {fields : List (Key × Node)} {closed : Bool}
      (hmem : field ∈ fields) (h : Within v field.2) : Within v (.object fields closed)

/-- A property of every value in a value. -/
def Everywhere (p : Node → Prop) (n : Node) : Prop := ∀ v, Within v n → p v

section

variable {p : Node → Prop} {items : List Node} {fields : List (Key × Node)} {closed : Bool}

/-- A value without items and fields has only itself in it. -/
theorem everywhere_leaf_iff {n : Node} (hn : n.height = 0) : Everywhere p n ↔ p n := by
  constructor
  · intro h
    exact h n (.self n)
  · intro h v hv
    cases hv with
    | self => exact h
    | item => simp [height] at hn
    | field => simp [height] at hn

theorem everywhere_array_iff :
    Everywhere p (.array items closed) ↔
      p (.array items closed) ∧ ∀ item ∈ items, Everywhere p item := by
  constructor
  · intro h
    exact ⟨h _ (.self _), fun item hmem v hv => h v (.item hmem hv)⟩
  · rintro ⟨hself, hitems⟩ v hv
    cases hv with
    | self => exact hself
    | item hmem hv => exact hitems _ hmem v hv

theorem everywhere_object_iff :
    Everywhere p (.object fields closed) ↔
      p (.object fields closed) ∧ ∀ field ∈ fields, Everywhere p field.2 := by
  constructor
  · intro h
    exact ⟨h _ (.self _), fun field hmem v hv => h v (.field hmem hv)⟩
  · rintro ⟨hself, hfields⟩ v hv
    cases hv with
    | self => exact hself
    | field hmem hv => exact hfields _ hmem v hv

end

/-- The value is no number without a double precision number. -/
def denotes : Node → Prop
  | .number numeral => numeral.value.isSome
  | _ => True

/-- The value is no string without a text, and has no such key. -/
def hasTexts : Node → Prop
  | .string text => text.isSome
  | .object fields _ => ∀ field ∈ fields, ∃ text, field.1 = .text text
  | _ => True

/-- Every number in the value is in range. -/
def InRange : Node → Prop := Everywhere denotes

/-- Every string in the value is a text, the keys of its objects included. -/
def Legible : Node → Prop := Everywhere hasTexts

/-! ## Reading it as a whole -/

theorem soundItems_iff {items : List Node} : soundItems items ↔ ∀ item ∈ items, item.sound := by
  induction items with
  | nil => simp [soundItems]
  | cons n items ih => rw [soundItems, Bool.and_eq_true, ih, List.forall_mem_cons]

theorem soundFields_iff {fields : List (Key × Node)} :
    soundFields fields ↔ ∀ field ∈ fields, field.2.sound := by
  induction fields with
  | nil => simp [soundFields]
  | cons field fields ih => rw [soundFields, Bool.and_eq_true, ih, List.forall_mem_cons]

theorem settleItems_iff {items : List Node} {left : Nat} :
    settleItems left items ↔ ∀ item ∈ items, item.settles left := by
  induction items with
  | nil => simp [settleItems]
  | cons n items ih => rw [settleItems, Bool.and_eq_true, ih, List.forall_mem_cons]

theorem settleFields_iff {fields : List (Key × Node)} {left : Nat} :
    settleFields left fields ↔
      ∀ field ∈ fields, (∃ text, field.1 = .text text) ∧ field.2.settles left := by
  induction fields with
  | nil => simp [settleFields]
  | cons field fields ih =>
    rw [List.forall_mem_cons, ← ih]
    obtain ⟨key | _ | _, n⟩ := field
    · simp [settleFields]
    · simp [settleFields]
    · simp [settleFields]

theorem settles_array_iff {items : List Node} {closed : Bool} {left : Nat} :
    (Node.array items closed).settles left ↔
      ∃ inner, left = inner + 1 ∧ closed = true ∧ ∀ item ∈ items, item.settles inner := by
  cases left with
  | zero => simp [settles]
  | succ left => simp [settles, settleItems_iff]

theorem settles_object_iff {fields : List (Key × Node)} {closed : Bool} {left : Nat} :
    (Node.object fields closed).settles left ↔
      ∃ inner, left = inner + 1 ∧ closed = true ∧
        ∀ field ∈ fields, (∃ text, field.1 = .text text) ∧ field.2.settles inner := by
  cases left with
  | zero => simp [settles]
  | succ left => simp [settles, settleFields_iff]

/-- **Which values can be read as a whole.** -/
theorem settles_iff {n : Node} {left : Nat} :
    n.settles left ↔ n.sound ∧ n.height ≤ left ∧ n.InRange ∧ n.Legible := by
  induction n using Node.induction generalizing left with
  | broken | null | bool _ | number _ =>
    rw [InRange, Legible, everywhere_leaf_iff rfl, everywhere_leaf_iff rfl]
    simp [settles, sound, height, denotes, hasTexts]
  | string text =>
    rw [InRange, Legible, everywhere_leaf_iff rfl, everywhere_leaf_iff rfl]
    cases text <;> simp [settles, sound, height, denotes, hasTexts]
  | array items closed ih =>
    rw [settles_array_iff, sound, Bool.and_eq_true, soundItems_iff, height, InRange, Legible,
      everywhere_array_iff, everywhere_array_iff]
    constructor
    · rintro ⟨inner, rfl, hclosed, hitems⟩
      have hparts := fun item hitem => (ih item hitem).1 (hitems item hitem)
      exact ⟨⟨hclosed, fun item hitem => (hparts item hitem).1⟩,
        Nat.succ_le_succ (heightItems_le_iff.2 fun item hitem => (hparts item hitem).2.1),
        ⟨trivial, fun item hitem => (hparts item hitem).2.2.1⟩,
        ⟨trivial, fun item hitem => (hparts item hitem).2.2.2⟩⟩
    · rintro ⟨⟨hclosed, hsound⟩, hheight, ⟨-, hrange⟩, ⟨-, htexts⟩⟩
      obtain ⟨inner, rfl⟩ : ∃ inner, left = inner + 1 := ⟨left - 1, by omega⟩
      have hbelow := heightItems_le_iff.1 (Nat.le_of_succ_le_succ hheight)
      exact ⟨inner, rfl, hclosed, fun item hitem => (ih item hitem).2
        ⟨hsound item hitem, hbelow item hitem, hrange item hitem, htexts item hitem⟩⟩
  | object fields closed ih =>
    rw [settles_object_iff, sound, Bool.and_eq_true, soundFields_iff, height, InRange, Legible,
      everywhere_object_iff, everywhere_object_iff]
    constructor
    · rintro ⟨inner, rfl, hclosed, hfields⟩
      have hparts := fun field hfield => (ih field hfield).1 (hfields field hfield).2
      exact ⟨⟨hclosed, fun field hfield => (hparts field hfield).1⟩,
        Nat.succ_le_succ (heightFields_le_iff.2 fun field hfield => (hparts field hfield).2.1),
        ⟨trivial, fun field hfield => (hparts field hfield).2.2.1⟩,
        ⟨fun field hfield => (hfields field hfield).1,
          fun field hfield => (hparts field hfield).2.2.2⟩⟩
    · rintro ⟨⟨hclosed, hsound⟩, hheight, ⟨-, hrange⟩, ⟨hkeys, htexts⟩⟩
      obtain ⟨inner, rfl⟩ : ∃ inner, left = inner + 1 := ⟨left - 1, by omega⟩
      have hbelow := heightFields_le_iff.1 (Nat.le_of_succ_le_succ hheight)
      exact ⟨inner, rfl, hclosed, fun field hfield => ⟨hkeys field hfield, (ih field hfield).2
        ⟨hsound field hfield, hbelow field hfield, hrange field hfield, htexts field hfield⟩⟩⟩

end Node

/-! ## Values that are spelled -/

mutual

/-- **A value that is spelled is complete.** -/
theorem Spells.sound {s : List Char} {n : Node} : Spells s n → n.sound
  | .token (t := t) _ hvalue => by
    cases t with
    | null | bool _ | number _ | string _ => rfl
    | _ => cases hvalue
  | .array h => by
    rw [Node.sound, Bool.true_and]
    exact h.sound
  | .object h => by
    rw [Node.sound, Bool.true_and]
    exact h.sound
  | .gapBefore _ h => h.sound
  | .gapAfter _ h => h.sound

theorem SpellsItems.sound {s : List Char} {items : List Node} :
    SpellsItems s items → soundItems items
  | .none _ => rfl
  | .last h => by simp [soundItems, h.sound]
  | .more h hrest => by
    rw [soundItems, h.sound, Bool.true_and]
    exact hrest.sound

theorem SpellsFields.sound {s : List Char} {fields : List (Key × Node)} :
    SpellsFields s fields → soundFields fields
  | .none _ => rfl
  | .last _ h => by simp [soundFields, h.sound]
  | .more _ h hrest => by
    rw [soundFields, h.sound, Bool.true_and]
    exact hrest.sound

end

end Ambient.Json
