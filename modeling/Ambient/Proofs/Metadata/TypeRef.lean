import Ambient.Annotation.Mapping
import Ambient.Proofs.Json.Fields
import Ambient.Proofs.Metadata.TypeNode

/-!
# Decoding types

The values that write a type are decoded and no others, each to the type that it
writes. A fault deep inside one spoils it all, because nothing else is tried for
a part. Half of a surrogate pair, in a string or in a key, is such a fault
(`Node.Legible`), wherever it stands (`decode_typeRef_unpaired`).

A type comes down to a name if every array on the way to it has one item
(`ComesDownTo`), and it is then mapped to what the name is mapped to, with a
pair of brackets for every dimension; else to `any` (`decode_typeRef_iff`).
-/

namespace Ambient

open Annotation Json

variable {left : Nat} {n : Node} {t : TypeRef} {name : String} {dimensions : Nat}

/-- **Which values are decoded**, and to what. -/
theorem typeRef_eq_ok_iff : typeRef left n = .ok t ↔ n.settles left ∧ Writes n t := by
  rw [← ofNode?_eq_some_iff, typeRef, anyOf]
  cases n.settles left with
  | false => simp
  | true => cases TypeRef.ofNode? n <;> simp

/-! ## What a type comes down to -/

/-- Every array on the way down has exactly one item, and this is at the bottom. -/
inductive ComesDownTo : Node → String → Nat → Prop
  | string (name : String) : ComesDownTo (.string (some name)) name 0
  | array {item : Node} {name : String} {dimensions : Nat} (closed : Bool)
      (h : ComesDownTo item name dimensions) : ComesDownTo (.array [item] closed) name dimensions
  | object {fields : List (Key × Node)} {name : String} {dimensions : Nat} (closed : Bool)
      (h : Describes fields name dimensions) : ComesDownTo (.object fields closed) name dimensions

/-- **What a type comes down to** stands at the bottom of arrays with one item. -/
theorem resolve?_eq_some_iff (h : Writes n t) :
    t.resolve? = some (name, dimensions) ↔ ComesDownTo n name dimensions := by
  induction n using Node.induction generalizing t with
  | broken | null | bool _ | number _ => cases h
  | string text =>
    cases h with
    | named name =>
      rw [TypeRef.resolve?, Option.some.injEq, Prod.mk.injEq]
      constructor
      · rintro ⟨rfl, rfl⟩
        exact .string name
      · intro h
        cases h
        exact ⟨rfl, rfl⟩
  | array items closed ih =>
    cases h with
    | union _ h =>
      match items, h with
      | [], .nil =>
        exact iff_of_false (fun h => by cases h) (fun h => by cases h)
      | [item], .cons hitem .nil =>
        rw [TypeRef.resolve?, ih item (List.mem_singleton_self _) hitem]
        constructor
        · exact .array closed
        · intro h
          cases h with
          | array _ h => exact h
      | _ :: _ :: _, .cons _ (.cons _ _) =>
        exact iff_of_false (fun h => by cases h) (fun h => by cases h)
  | object fields closed _ =>
    cases h with
    | @described _ name' dimensions' _ h =>
      rw [TypeRef.resolve?, Option.some.injEq, Prod.mk.injEq]
      constructor
      · rintro ⟨rfl, rfl⟩
        exact .object closed h
      · intro hdown
        cases hdown with
        | object _ hdown =>
          have hsame : described? fields = some (.described name' dimensions') :=
            described?_eq_some_iff.2 ⟨_, _, rfl, h⟩
          have hsame' : described? fields = some (.described name dimensions) :=
            described?_eq_some_iff.2 ⟨_, _, rfl, hdown⟩
          rw [hsame, Option.some.injEq, TypeRef.described.injEq] at hsame'
          exact hsame'

/-- A type that comes down to a name is mapped as the name is, with its brackets. -/
theorem mapRef_of_resolve? {m : Mapper} (h : t.resolve? = some (name, dimensions)) :
    m.mapRef (some t) = m.mapType name ++ String.join (List.replicate dimensions "[]") := by
  have hbrackets : String.ofList (List.replicate dimensions "[]".toList).flatten =
      String.join (List.replicate dimensions "[]") := by
    rw [← String.toList_inj, String.toList_join, List.flatMap_replicate, String.toList_ofList]
  simp only [Mapper.mapRef, Option.bind_some, h, hbrackets]

theorem mapRef_of_resolve?_eq_none {m : Mapper} (h : t.resolve? = none) :
    m.mapRef (some t) = "any" := by
  simp only [Mapper.mapRef, Option.bind_some, h]
  rfl

/-- **Types are read exactly.** Of the values with numbers in range that do not
nest too deep, those are decoded that are types, each to the type that it writes,
if every string and every key in them is a text. A type comes down to what stands
at the bottom of arrays with one item, and is mapped to the declaration type of
that name with a pair of brackets for every dimension; where there is no such
bottom it is mapped to `any`. -/
theorem decode_typeRef_iff {text : String} (hn : Spells text.toList n) (hheight : n.height ≤ levels)
    (hrange : n.InRange) (m : Mapper) :
    ((∃ t, decode typeRef text = .ok t) ↔ n.Legible ∧ IsTypeExpression n) ∧
      ∀ t, decode typeRef text = .ok t →
        Writes n t ∧
          (∀ name dimensions,
            t.resolve? = some (name, dimensions) ↔ ComesDownTo n name dimensions) ∧
          (∀ name dimensions, ComesDownTo n name dimensions →
            m.mapRef (some t) = m.mapType name ++ String.join (List.replicate dimensions "[]")) ∧
          ((∀ name dimensions, ¬ ComesDownTo n name dimensions) → m.mapRef (some t) = "any") := by
  have hsettles : n.settles levels ↔ n.Legible := by
    rw [Node.settles_iff]
    exact ⟨fun h => h.2.2.2, fun h => ⟨hn.sound, hheight, hrange, h⟩⟩
  have hdecode (t : TypeRef) : decode typeRef text = .ok t ↔ n.Legible ∧ Writes n t := by
    rw [decode_eq_ok_iff, hn.ofText, typeRef_eq_ok_iff, hsettles]
    exact and_iff_left rfl
  refine ⟨?_, fun t ht => ?_⟩
  · simp only [hdecode, isTypeExpression_iff, exists_and_left]
  · have hwrites := ((hdecode t).1 ht).2
    refine ⟨hwrites, fun name dimensions => resolve?_eq_some_iff hwrites,
      fun name dimensions h => mapRef_of_resolve? ((resolve?_eq_some_iff hwrites).2 h),
      fun hnone => mapRef_of_resolve?_eq_none ?_⟩
    refine Option.eq_none_iff_forall_not_mem.2 fun ⟨name, dimensions⟩ h => ?_
    exact hnone name dimensions ((resolve?_eq_some_iff hwrites).1 h)

/-! ## A type in an array -/

/-- One alternative, with dimensions and a key that means nothing here. -/
def alternativeText : String :=
  "[\x7b\"dimensions\":2, \"since\":[1.5], \"name\":\"String\"\x7d]"

/-- The fields of the alternative. -/
def alternativeFields : List (Key × Node) :=
  [(.text "dimensions", .number ⟨false, [2], [], none⟩),
    (.text "since", .array [.number ⟨false, [1], [5], none⟩] true),
    (.text "name", .string (some "String"))]

/-- The tree of the text. -/
def alternativeRoot : Node := .array [.object alternativeFields true] true

/-- A mapper that knows one alias and no class. -/
def stringMapper : Mapper := ⟨[("String".toList, "string".toList)], .empty "."⟩

theorem spells_alternativeText : Spells alternativeText.toList alternativeRoot := by
  have hdimensions : lex "\"dimensions\"".toList = [.string (some "dimensions")] := by
    decide +kernel
  have htwo : lex "2".toList = [.number ⟨false, [2], [], none⟩] := by decide +kernel
  have hsince : lex " \"since\"".toList = [.string (some "since")] := by decide +kernel
  have hnumber : lex "1.5".toList = [.number ⟨false, [1], [5], none⟩] := by decide +kernel
  have hname : lex " \"name\"".toList = [.string (some "name")] := by decide +kernel
  have hString : lex "\"String\"".toList = [.string (some "String")] := by decide +kernel
  exact .array (.last (.object (.more hdimensions (.token htwo rfl)
    (.more hsince (.array (.last (.token hnumber rfl))) (.last hname (.token hString rfl))))))

theorem describes_alternativeFields : Describes alternativeFields "String" 2 where
  name := ⟨by decide, by simp [alternativeFields]⟩
  dimensions := .inr ⟨by decide, ⟨false, [2], [], none⟩,
    ⟨by decide, by simp [alternativeFields]⟩, ⟨rfl, rfl, rfl, rfl⟩⟩

theorem decode_typeRef_alternative :
    alternativeRoot.height ≤ levels ∧
      ∃ t, decode typeRef alternativeText = .ok t ∧
        stringMapper.mapRef (some t) = "string[][]" := by
  have hsettles : alternativeRoot.settles levels := by decide +kernel
  obtain ⟨-, hheight, hrange, htexts⟩ := Node.settles_iff.1 hsettles
  have htype : IsTypeExpression alternativeRoot :=
    .array true (List.forall_mem_singleton.2 (.object true describes_alternativeFields))
  obtain ⟨hdecoded, hmapped⟩ :=
    decode_typeRef_iff spells_alternativeText hheight hrange stringMapper
  obtain ⟨t, ht⟩ := hdecoded.2 ⟨htexts, htype⟩
  refine ⟨hheight, t, ht, ?_⟩
  rw [(hmapped t ht).2.2.1 "String" 2 (.array true (.object true describes_alternativeFields))]
  decide +kernel

/-! ## Half of a surrogate pair -/

/-- A name, and under a key that means nothing here half of a surrogate pair. -/
def unpairedText : String := "\x7b\"name\":\"a\",\"x\":\"\\ud800\"\x7d"

/-- The fields of the text. -/
def unpairedFields : List (Key × Node) :=
  [(.text "name", .string (some "a")), (.text "x", .string none)]

/-- The tree of the text. -/
def unpairedRoot : Node := .object unpairedFields true

theorem spells_unpairedText : Spells unpairedText.toList unpairedRoot := by
  have hname : lex "\"name\"".toList = [.string (some "name")] := by decide +kernel
  have ha : lex "\"a\"".toList = [.string (some "a")] := by decide +kernel
  have hx : lex "\"x\"".toList = [.string (some "x")] := by decide +kernel
  have hhalf : lex "\"\\ud800\"".toList = [.string none] := by decide +kernel
  exact .object (.more hname (.token ha rfl) (.last hx (.token hhalf rfl)))

theorem describes_unpairedFields : Describes unpairedFields "a" 0 where
  name := ⟨by decide, by simp [unpairedFields]⟩
  dimensions := .inl ⟨by decide, rfl⟩

theorem inRange_unpairedRoot : unpairedRoot.InRange := by
  refine Node.everywhere_object_iff.2 ⟨trivial, ?_⟩
  simp only [unpairedFields, List.forall_mem_cons]
  exact ⟨(Node.everywhere_leaf_iff rfl).2 trivial, (Node.everywhere_leaf_iff rfl).2 trivial,
    List.forall_mem_nil _⟩

/-- **Half of a surrogate pair spoils a type**, wherever it stands. The value is
one of those that are types, and it is not decoded. -/
theorem decode_typeRef_unpaired :
    Spells unpairedText.toList unpairedRoot ∧ unpairedRoot.height ≤ levels ∧
      unpairedRoot.InRange ∧ IsTypeExpression unpairedRoot ∧
      ∀ t, decode typeRef unpairedText ≠ .ok t := by
  refine ⟨spells_unpairedText, by decide +kernel, inRange_unpairedRoot,
    .object true describes_unpairedFields, fun t ht => ?_⟩
  have hread := (decode_eq_ok_iff.1 ht).1
  rw [spells_unpairedText.ofText] at hread
  have hsettles : unpairedRoot.settles levels = false := by decide +kernel
  have hsettled := (typeRef_eq_ok_iff.1 hread).1
  rw [hsettles] at hsettled
  cases hsettled

end Ambient
