import Mathlib.Data.List.Forall2
import Ambient.Metadata.Decode
import Ambient.Proofs.Json.Whole

/-!
# Values that write types

A type is written as a string, as an array of types, or as an object with one
`name` and perhaps its `dimensions` (`IsTypeExpression`). Such a value writes one
type, part by part (`Writes`), and it is taken for that type and for no other
(`ofNode?_eq_some_iff`).
-/

namespace Ambient

open Json

variable {n : Node} {t : TypeRef} {fields : List (Key × Node)} {d : Nat}
variable {items : List Node} {ts : List TypeRef}

/-! ## What is written -/

/-- The numeral is the natural `d`, written without sign, fraction and exponent. -/
structure IsNatural (numeral : Numeral) (d : Nat) : Prop where
  unsigned : numeral.negative = false
  whole : numeral.fraction = []
  plain : numeral.exponent = none
  digits : ofDigits numeral.whole = d

/-- The fields have this key once, with this value. -/
structure HasOne (fields : List (Key × Node)) (key : String) (value : Node) : Prop where
  once : (fields.map Prod.fst).count (.text key) = 1
  mem : (.text key, value) ∈ fields

/-- The fields have one `name`, a string, and at most one `dimensions`, a natural
below 2 ^ 32; without one there are none. -/
structure Describes (fields : List (Key × Node)) (name : String) (dimensions : Nat) : Prop where
  name : HasOne fields "name" (.string (some name))
  dimensions : .text "dimensions" ∉ fields.map Prod.fst ∧ dimensions = 0 ∨
    dimensions < Nat.pow 2 32 ∧
      ∃ numeral, HasOne fields "dimensions" (.number numeral) ∧ IsNatural numeral dimensions

/-- The values that are types. What stands under the other keys of an object is
arbitrary. -/
inductive IsTypeExpression : Node → Prop
  | string (name : String) : IsTypeExpression (.string (some name))
  | array {items : List Node} (closed : Bool) (h : ∀ item ∈ items, IsTypeExpression item) :
      IsTypeExpression (.array items closed)
  | object {fields : List (Key × Node)} {name : String} {dimensions : Nat} (closed : Bool)
      (h : Describes fields name dimensions) : IsTypeExpression (.object fields closed)

/-- The type that a value writes, part by part. -/
inductive Writes : Node → TypeRef → Prop
  | named (name : String) : Writes (.string (some name)) (.named name)
  | union {items : List Node} {alternatives : List TypeRef} (closed : Bool)
      (h : List.Forall₂ Writes items alternatives) :
      Writes (.array items closed) (.union alternatives)
  | described {fields : List (Key × Node)} {name : String} {dimensions : Nat} (closed : Bool)
      (h : Describes fields name dimensions) :
      Writes (.object fields closed) (.described name dimensions)

/-! ## Objects -/

/-- Which numerals denote a natural of at most 64 bits. -/
theorem value_eq_ofNat_iff {numeral : Numeral} :
    numeral.value = some (.integer (.ofNat d)) ↔ IsNatural numeral d ∧ d < Nat.pow 2 64 := by
  obtain ⟨negative, whole, fraction, exponent⟩ := numeral
  constructor
  · intro h
    cases negative with
    | false =>
      simp only [Numeral.value, Numeral.isIntegral, Bool.not_false, Bool.and_true,
        Bool.and_false, Bool.false_and, Bool.false_eq_true, if_false] at h
      split at h
      · rename_i hnatural
        simp only [Bool.and_eq_true, List.isEmpty_iff, Option.isNone_iff_eq_none,
          decide_eq_true_eq] at hnatural
        obtain ⟨⟨hfraction, hexponent⟩, hlt⟩ := hnatural
        simp only [Option.some.injEq, Number.integer.injEq] at h
        obtain rfl : ofDigits whole = d := Int.ofNat.inj h
        exact ⟨⟨rfl, hfraction, hexponent, rfl⟩, hlt⟩
      · simp at h
    | true =>
      simp only [Numeral.value, Bool.not_true, Bool.and_false, Bool.false_and, Bool.false_eq_true,
        if_false] at h
      split at h
      · rename_i hnegative
        simp only [Bool.and_eq_true, decide_eq_true_eq] at hnegative
        simp only [Option.some.injEq, Number.integer.injEq, Int.ofNat_eq_natCast] at h
        omega
      · simp at h
  · rintro ⟨⟨hunsigned, hwhole, hplain, hdigits⟩, hlt⟩
    simp only at hunsigned hwhole hplain hdigits
    subst hunsigned hwhole hplain hdigits
    have hnatural : ofDigits whole < Nat.pow 2 64 := hlt
    simp [Numeral.value, Numeral.isIntegral, hnatural]

theorem dimensions?_eq_some_iff {numeral : Numeral} :
    dimensions? numeral = some d ↔ d < Nat.pow 2 32 ∧ IsNatural numeral d := by
  constructor
  · intro h
    unfold dimensions? at h
    split at h
    · rename_i value hvalue
      split at h
      · rename_i hlt
        cases h
        exact ⟨hlt, (value_eq_ofNat_iff.1 hvalue).1⟩
      · cases h
    · cases h
  · rintro ⟨hlt, hnatural⟩
    have hbits : Nat.pow 2 32 ≤ Nat.pow 2 64 := by decide
    have hvalue : numeral.value = some (.integer (.ofNat d)) :=
      value_eq_ofNat_iff.2 ⟨hnatural, Nat.lt_of_lt_of_le hlt hbits⟩
    unfold dimensions?
    rw [hvalue]
    exact if_pos hlt

/-- One field is selected by a key if it is the one that has it. -/
theorem filter_key_eq_singleton_iff {key : String} {k : Key} {value : Node} :
    fields.filter (·.1 = .text key) = [(k, value)] ↔ k = .text key ∧ HasOne fields key value := by
  have hlength : (fields.filter (·.1 = .text key)).length =
      (fields.map Prod.fst).count (.text key) := by
    rw [List.count, List.countP_map, List.countP_eq_length_filter]
    rfl
  constructor
  · intro h
    have hmem := List.mem_filter.1 (h ▸ List.mem_singleton_self _)
    obtain rfl : k = .text key := by simpa using hmem.2
    exact ⟨rfl, by rw [← hlength, h, List.length_singleton], hmem.1⟩
  · rintro ⟨rfl, honce, hmem⟩
    obtain ⟨field, hfield⟩ := List.length_eq_one_iff.1 (hlength.trans honce)
    have hselected : (.text key, value) ∈ fields.filter (·.1 = .text key) :=
      List.mem_filter.2 ⟨hmem, by simp⟩
    rw [hfield, List.mem_singleton] at hselected
    rw [hfield, hselected]

theorem filter_key_eq_nil_iff {key : String} :
    fields.filter (·.1 = .text key) = [] ↔ .text key ∉ fields.map Prod.fst := by
  rw [List.filter_eq_nil_iff, List.mem_map]
  constructor
  · rintro h ⟨field, hfield, hkey⟩
    exact h field hfield (by simpa using hkey)
  · intro h field hfield hkey
    exact h ⟨field, hfield, by simpa using hkey⟩

/-- **Which objects are types.** -/
theorem described?_eq_some_iff :
    described? fields = some t ↔
      ∃ name dimensions, t = .described name dimensions ∧ Describes fields name dimensions := by
  constructor
  · intro h
    unfold described? at h
    split at h
    · rename_i key name hname hdimensions
      cases h
      exact ⟨name, 0, rfl, (filter_key_eq_singleton_iff.1 hname).2,
        .inl ⟨filter_key_eq_nil_iff.1 hdimensions, rfl⟩⟩
    · rename_i key name key' numeral hname hdimensions
      obtain ⟨d, hd, rfl⟩ := Option.map_eq_some_iff.1 h
      obtain ⟨hlt, hnatural⟩ := dimensions?_eq_some_iff.1 hd
      exact ⟨name, d, rfl, (filter_key_eq_singleton_iff.1 hname).2,
        .inr ⟨hlt, numeral, (filter_key_eq_singleton_iff.1 hdimensions).2, hnatural⟩⟩
    · cases h
  · rintro ⟨name, d, rfl, hname, ⟨hnone, rfl⟩ | ⟨hlt, numeral, hone, hnatural⟩⟩
    · unfold described?
      rw [filter_key_eq_singleton_iff.2 ⟨rfl, hname⟩, filter_key_eq_nil_iff.2 hnone]
    · unfold described?
      rw [filter_key_eq_singleton_iff.2 ⟨rfl, hname⟩, filter_key_eq_singleton_iff.2 ⟨rfl, hone⟩]
      simp only [dimensions?_eq_some_iff.2 ⟨hlt, hnatural⟩, Option.map_some]

/-! ## All values -/

/-- Relations that agree on the elements of a list relate it to the same lists. -/
theorem forall₂_congr_of_mem {α β : Type} {R S : α → β → Prop} {as : List α} {bs : List β}
    (h : ∀ a ∈ as, ∀ b, R a b ↔ S a b) : List.Forall₂ R as bs ↔ List.Forall₂ S as bs := by
  constructor
  · intro hR
    exact ((List.forall₂_and_left as bs).2 ⟨h, hR⟩).imp fun a b hab => (hab.1 b).1 hab.2
  · intro hS
    exact ((List.forall₂_and_left as bs).2 ⟨h, hS⟩).imp fun a b hab => (hab.1 b).2 hab.2

/-- Every element is related to something if the list is related to a list. -/
theorem exists_forall₂_iff {α β : Type} {R : α → β → Prop} {as : List α} :
    (∃ bs, List.Forall₂ R as bs) ↔ ∀ a ∈ as, ∃ b, R a b := by
  induction as with
  | nil => exact iff_of_true ⟨[], .nil⟩ (List.forall_mem_nil _)
  | cons a as ih =>
    rw [List.forall_mem_cons, ← ih]
    constructor
    · rintro ⟨_, h⟩
      obtain ⟨b, bs, hfirst, hrest, -⟩ := List.forall₂_cons_left_iff.1 h
      exact ⟨⟨b, hfirst⟩, ⟨bs, hrest⟩⟩
    · rintro ⟨⟨b, hfirst⟩, ⟨bs, hrest⟩⟩
      exact ⟨b :: bs, .cons hfirst hrest⟩

theorem ofNodes?_eq_some_iff :
    TypeRef.ofNodes? items = some ts ↔
      List.Forall₂ (fun item t => TypeRef.ofNode? item = some t) items ts := by
  induction items generalizing ts with
  | nil =>
    rw [TypeRef.ofNodes?, List.forall₂_nil_left_iff, Option.some.injEq]
    exact eq_comm
  | cons item items ih =>
    rw [TypeRef.ofNodes?, List.forall₂_cons_left_iff]
    constructor
    · intro h
      split at h
      · rename_i t rest hfirst hrest
        cases h
        exact ⟨t, rest, hfirst, ih.1 hrest, rfl⟩
      · cases h
    · rintro ⟨t, rest, hfirst, hrest, rfl⟩
      rw [hfirst, ih.2 hrest]

/-- **A value is taken for the type that it writes**, and for no other. -/
theorem ofNode?_eq_some_iff : TypeRef.ofNode? n = some t ↔ Writes n t := by
  induction n using Node.induction generalizing t with
  | broken | null | bool _ | number _ =>
    exact iff_of_false (fun h => by cases h) (fun h => by cases h)
  | string text =>
    cases text with
    | none => exact iff_of_false (fun h => by cases h) (fun h => by cases h)
    | some name =>
      constructor
      · intro h
        cases h
        exact .named name
      · intro h
        cases h
        rfl
  | array items closed ih =>
    have hitems (ts : List TypeRef) :
        TypeRef.ofNodes? items = some ts ↔ List.Forall₂ Writes items ts :=
      ofNodes?_eq_some_iff.trans (forall₂_congr_of_mem fun item hitem t => ih item hitem)
    rw [TypeRef.ofNode?, Option.map_eq_some_iff]
    constructor
    · rintro ⟨ts, hts, rfl⟩
      exact .union closed ((hitems ts).1 hts)
    · intro h
      cases h with
      | union _ h => exact ⟨_, (hitems _).2 h, rfl⟩
  | object fields closed _ =>
    rw [TypeRef.ofNode?, described?_eq_some_iff]
    constructor
    · rintro ⟨name, d, rfl, h⟩
      exact .described closed h
    · intro h
      cases h with
      | described _ h => exact ⟨_, _, rfl, h⟩

/-- The values that are types are those that write one. -/
theorem isTypeExpression_iff : IsTypeExpression n ↔ ∃ t, Writes n t := by
  constructor
  · intro h
    induction h with
    | string name => exact ⟨.named name, .named name⟩
    | array closed _ ih =>
      obtain ⟨ts, hts⟩ := exists_forall₂_iff.2 ih
      exact ⟨.union ts, .union closed hts⟩
    | object closed h => exact ⟨.described _ _, .described closed h⟩
  · rintro ⟨t, h⟩
    induction n using Node.induction generalizing t with
    | broken | null | bool _ | number _ => cases h
    | string text =>
      cases h
      exact .string _
    | array items closed ih =>
      cases h with
      | union _ h =>
        refine .array closed fun item hitem => ?_
        obtain ⟨t, ht⟩ := exists_forall₂_iff.1 ⟨_, h⟩ item hitem
        exact ih item hitem t ht
    | object fields closed _ =>
      cases h with
      | described _ h => exact .object closed h

end Ambient
