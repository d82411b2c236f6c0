import Ambient.Metadata.Decode
import Ambient.Proofs.Json.Rearranged
import Ambient.Proofs.Metadata.TypeNode

/-!
# Class records with their fields rearranged

The record of a class is an object, and so are its constructor, its members and
their parameters, its properties and its events. The fields of each can stand
in any order, with others among them that mean nothing here (`ClassVaries`), and
the text decodes to the same class (`decode_of_varies`). The tables of the class
and the lists in it are another matter: they keep the order of the text
(`ClassInOrder`).
-/

namespace Ambient

open Json Json.Schema

variable {left : Nat} {n n' : Node}

/-! ## The variations of a record -/

/-- A parameter with its fields rearranged. -/
def ParamVaries : Node → Node → Prop := FieldsVary paramSchema fun _ => Eq

/-- How the fields of a member vary: those of its parameters are rearranged. -/
def MemberFieldVaries : Key → Node → Node → Prop
  | .text "params" => ItemsVary ParamVaries
  | _ => Eq

/-- A member with its fields rearranged, and those of its parameters. -/
def MemberVaries : Node → Node → Prop := FieldsVary memberSchema MemberFieldVaries

/-- A property with its fields rearranged. -/
def PropertyVaries : Node → Node → Prop := FieldsVary propertySchema fun _ => Eq

/-- An event with its fields rearranged. -/
def EventVaries : Node → Node → Prop := FieldsVary eventSchema fun _ => Eq

/-- How the fields of a class vary: those of all that it declares are rearranged. -/
def ClassFieldVaries : Key → Node → Node → Prop
  | .text "construct" => MemberVaries
  | .text "statics" => EntriesVary MemberVaries
  | .text "members" => EntriesVary MemberVaries
  | .text "properties" => EntriesVary PropertyVaries
  | .text "events" => EntriesVary EventVaries
  | _ => Eq

/-- A class with its fields rearranged, and those of all that it declares. -/
def ClassVaries : Node → Node → Prop := FieldsVary classSchema ClassFieldVaries

/-! ## The readers keep them -/

theorem independent_paramSchema : paramSchema.Independent := by
  simp [Independent, paramSchema, commute_sets]

theorem independent_memberSchema : memberSchema.Independent := by
  simp [Independent, memberSchema, commute_sets]

theorem independent_propertySchema : propertySchema.Independent := by
  simp [Independent, propertySchema, commute_sets]

theorem independent_eventSchema : eventSchema.Independent := by
  simp [Independent, eventSchema, commute_sets]

theorem independent_classSchema : classSchema.Independent := by
  simp [Independent, classSchema, commute_sets]

theorem keeps_param : Keeps paramSchema.record ParamVaries :=
  keeps_record independent_paramSchema rfl (fun _ _ => keeps_eq _) fun _ _ _ _ h => h

theorem keeps_property : Keeps propertySchema.record PropertyVaries :=
  keeps_record independent_propertySchema rfl (fun _ _ => keeps_eq _) fun _ _ _ _ h => h

theorem keeps_event : Keeps eventSchema.record EventVaries :=
  keeps_record independent_eventSchema rfl (fun _ _ => keeps_eq _) fun _ _ _ _ h => h

theorem keeps_params : Keeps (optional (list paramSchema.record)) (ItemsVary ParamVaries) := by
  refine keeps_param.list.optional (fun left a => refuse_ne_ok _ _ _) fun n h => ?_
  cases h
  rfl

theorem keeps_member : Keeps memberSchema.record MemberVaries := by
  refine keeps_record independent_memberSchema rfl ?_ ?_
  · simp only [memberSchema, List.forall_mem_cons]
    exact ⟨keeps_eq _, keeps_eq _, keeps_eq _, keeps_eq _, keeps_eq _, keeps_eq _,
      keeps_params.sets _, keeps_eq _, keeps_eq _, List.forall_mem_nil _⟩
  · intro key hkey n n' h
    have hother : MemberFieldVaries (.text key) = Eq := by
      unfold MemberFieldVaries
      split
      · rename_i heq
        cases heq
        exact absurd (by decide) hkey
      · rfl
    rwa [hother] at h

theorem keeps_construct : Keeps (optional memberSchema.record) MemberVaries := by
  refine keeps_member.optional (fun left a => refuse_ne_ok _ _ _) fun n h => ?_
  cases h
  rfl

/-- **A class is the same however its fields are arranged.** -/
theorem keeps_class : Keeps classRecord ClassVaries := by
  refine keeps_record independent_classSchema rfl ?_ ?_
  · simp only [classSchema, List.forall_mem_cons]
    exact ⟨keeps_eq _, keeps_eq _, keeps_eq _, keeps_eq _, keeps_eq _, keeps_eq _, keeps_eq _,
      keeps_construct.sets _, keeps_member.table.sets _, keeps_member.table.sets _,
      keeps_property.table.sets _, keeps_event.table.sets _, keeps_eq _, List.forall_mem_nil _⟩
  · intro key hkey n n' h
    have hother : ClassFieldVaries (.text key) = Eq := by
      unfold ClassFieldVaries
      split
      case h_6 => rfl
      all_goals
        rename_i heq
        cases heq
        exact absurd (by decide) hkey
    rwa [hother] at h

/-! ## What stays in its place -/

/-- A parameter and the value it is read from. -/
structure ParamInOrder (n : Node) (p : Param) : Prop where
  read : ∃ left, paramSchema.record left n = .ok p
  type : FieldInOrder n "type" (OptionalOf Writes) p.type

/-- A member and the value it is read from, part by part where parts have an order. -/
structure MemberInOrder (n : Node) (m : Member) : Prop where
  read : ∃ left, memberSchema.record left n = .ok m
  params : FieldInOrder n "params" (OptionalOf (ItemsInOrder ParamInOrder)) m.params
  returnType : FieldInOrder n "returnType" (OptionalOf Writes) m.returnType
  doc : FieldInOrder n "jsdoc" (ItemsInOrder IsText) m.doc

/-- A property and the value it is read from. -/
structure PropertyInOrder (n : Node) (p : Property) : Prop where
  read : ∃ left, propertySchema.record left n = .ok p
  check : FieldInOrder n "check" (OptionalOf Writes) p.check
  doc : FieldInOrder n "jsdoc" (ItemsInOrder IsText) p.doc

/-- An event and the value it is read from. -/
structure EventInOrder (n : Node) (e : Event) : Prop where
  read : ∃ left, eventSchema.record left n = .ok e
  type : FieldInOrder n "type" (OptionalOf Writes) e.type
  doc : FieldInOrder n "jsdoc" (ItemsInOrder IsText) e.doc

/-- A class and the value it is read from: every table has its entries in the order of
the text, and every list its elements. -/
structure ClassInOrder (n : Node) (c : ClassRecord) : Prop where
  superclasses : FieldInOrder n "superClass" (OptionalOf (ItemsInOrder IsText)) c.superclasses
  interfaces : FieldInOrder n "interfaces" (ItemsInOrder IsText) c.interfaces
  mixins : FieldInOrder n "mixins" (ItemsInOrder IsText) c.mixins
  construct : FieldInOrder n "construct" (OptionalOf MemberInOrder) c.construct
  statics : FieldInOrder n "statics" (EntriesInOrder MemberInOrder) c.statics
  members : FieldInOrder n "members" (EntriesInOrder MemberInOrder) c.members
  properties : FieldInOrder n "properties" (EntriesInOrder PropertyInOrder) c.properties
  events : FieldInOrder n "events" (EntriesInOrder EventInOrder) c.events

/-- What a choice gives is one of its forms. -/
theorem gives_anyOf {α : Type} {choice : String} {form : Node → Option α} {R : Node → α → Prop}
    (h : ∀ n a, form n = some a → R n a) : Gives (anyOf choice form) R := by
  intro left n a ha
  unfold anyOf at ha
  split at ha
  · cases hform : form n with
    | none =>
      rw [hform] at ha
      cases ha
    | some b =>
      rw [hform] at ha
      cases ha
      exact h n _ hform
  · cases ha

theorem forall₂_of_texts? {items : List Node} {names : List String}
    (h : texts? items = some names) : List.Forall₂ IsText items names := by
  induction items generalizing names with
  | nil =>
    cases h
    exact .nil
  | cons n items ih =>
    unfold texts? at h
    split at h
    · rename_i heq
      cases heq
    · rename_i heq
      cases heq
      obtain ⟨rest, hrest, rfl⟩ := Option.map_eq_some_iff.1 h
      exact .cons rfl (ih hrest)
    · cases h

theorem itemsInOrder_of_names? {n : Node} {names : List String} (h : names? n = some names) :
    ItemsInOrder IsText n names := by
  rintro items closed rfl
  exact forall₂_of_texts? h

theorem gives_superclassNames : Gives superclassNames (ItemsInOrder IsText) :=
  gives_anyOf fun _ _ h => itemsInOrder_of_names? h

theorem gives_oneOrMany : Gives oneOrMany (ItemsInOrder IsText) := by
  refine gives_anyOf fun n names h => ?_
  split at h
  · rintro items closed heq
    cases heq
  · exact itemsInOrder_of_names? h

theorem gives_typeRef : Gives typeRef Writes := gives_anyOf fun _ _ => ofNode?_eq_some_iff.1

theorem gives_param : Gives paramSchema.record ParamInOrder := fun left _ _ h => {
  read := ⟨left, h⟩
  type := independent_paramSchema.fieldInOrder rfl (fun _ _ => rfl) gives_typeRef.optional h }

theorem gives_member : Gives memberSchema.record MemberInOrder := fun left _ _ h => {
  read := ⟨left, h⟩
  params :=
    independent_memberSchema.fieldInOrder rfl (fun _ _ => rfl) gives_param.list.optional h
  returnType := independent_memberSchema.fieldInOrder rfl (fun _ _ => rfl) gives_typeRef.optional h
  doc := independent_memberSchema.fieldInOrder rfl (fun _ _ => rfl) gives_text.list h }

theorem gives_property : Gives propertySchema.record PropertyInOrder := fun left _ _ h => {
  read := ⟨left, h⟩
  check := independent_propertySchema.fieldInOrder rfl (fun _ _ => rfl) gives_typeRef.optional h
  doc := independent_propertySchema.fieldInOrder rfl (fun _ _ => rfl) gives_text.list h }

theorem gives_event : Gives eventSchema.record EventInOrder := fun left _ _ h => {
  read := ⟨left, h⟩
  type := independent_eventSchema.fieldInOrder rfl (fun _ _ => rfl) gives_typeRef.optional h
  doc := independent_eventSchema.fieldInOrder rfl (fun _ _ => rfl) gives_text.list h }

/-- **What a class declares has the order of the text.** -/
theorem gives_class : Gives classRecord ClassInOrder := fun _ _ _ h => {
  superclasses :=
    independent_classSchema.fieldInOrder rfl (fun _ _ => rfl) gives_superclassNames.optional h
  interfaces := independent_classSchema.fieldInOrder rfl (fun _ _ => rfl) gives_oneOrMany h
  mixins := independent_classSchema.fieldInOrder rfl (fun _ _ => rfl) gives_oneOrMany h
  construct := independent_classSchema.fieldInOrder rfl (fun _ _ => rfl) gives_member.optional h
  statics := independent_classSchema.fieldInOrder rfl (fun _ _ => rfl) gives_member.table h
  members := independent_classSchema.fieldInOrder rfl (fun _ _ => rfl) gives_member.table h
  properties := independent_classSchema.fieldInOrder rfl (fun _ _ => rfl) gives_property.table h
  events := independent_classSchema.fieldInOrder rfl (fun _ _ => rfl) gives_event.table h }

/-! ## Texts -/

/-- **A text says the same with its fields rearranged**: with the fields of the
class and of all that it declares in any order, and other fields among them.
What has an order in the class is in the order of the text. -/
theorem decode_of_varies {text text' : String} {c : ClassRecord} (hn : Spells text.toList n)
    (hn' : Spells text'.toList n') (hvaries : ClassVaries n n')
    (hc : decode classRecord text = .ok c) :
    decode classRecord text' = .ok c ∧ ClassInOrder n c := by
  have hread := (decode_eq_ok_iff.1 hc).1
  rw [hn.ofText] at hread
  have hread' : classRecord levels n' = .ok c := keeps_class hvaries hread
  refine ⟨decode_eq_ok_iff.2 ?_, gives_class hread⟩
  rw [hn'.ofText]
  exact ⟨hread', rfl⟩

/-! ## A class with a constructor -/

/-- A record with an object in it. -/
def plainText : String :=
  "\x7b\"className\":\"A\",\"construct\":\x7b\"async\":true\x7d\x7d"

/-- The same with the fields in another order and one more of them. -/
def rearrangedText : String :=
  "\x7b \"construct\":\x7b\"since\":[1e999],\"async\":true\x7d,\"className\":\"A\"\x7d"

/-- The tree of the first text. -/
def plainRoot : Node :=
  .object [(.text "className", .string (some "A")),
    (.text "construct", .object [(.text "async", .bool true)] true)] true

/-- The constructor with one more field. -/
def rearrangedConstruct : Node :=
  .object [(.text "since", .array [.number ⟨false, [1], [], some (false, [9, 9, 9])⟩] true),
    (.text "async", .bool true)] true

/-- The tree of the second text. -/
def rearrangedRoot : Node :=
  .object [(.text "construct", rearrangedConstruct), (.text "className", .string (some "A"))] true

theorem classVaries_plainRoot : ClassVaries plainRoot rearrangedRoot := by
  have hforeign : memberSchema.Foreign
      (.text "since", .array [.number ⟨false, [1], [], some (false, [9, 9, 9])⟩] true) :=
    ⟨"since", rfl, by decide, rfl⟩
  have hconstruct : MemberVaries (.object [(.text "async", .bool true)] true)
      rearrangedConstruct :=
    .fields (.cons ⟨rfl, rfl⟩ .nil) (List.forall_mem_singleton.2 hforeign) (.swap _ _ _)
  have hfields : List.Forall₂ (fun field field' => field.1 = field'.1 ∧
      ClassFieldVaries field.1 field.2 field'.2)
      [(.text "className", .string (some "A")),
        (.text "construct", .object [(.text "async", .bool true)] true)]
      [(.text "className", .string (some "A")), (.text "construct", rearrangedConstruct)] :=
    .cons ⟨rfl, rfl⟩ (.cons ⟨rfl, hconstruct⟩ .nil)
  exact .fields hfields (List.forall_mem_nil _) (.swap _ _ _)

theorem spells_plainText : Spells plainText.toList plainRoot := by
  have hname : lex "\"className\"".toList = [.string (some "className")] := by decide +kernel
  have hA : lex "\"A\"".toList = [.string (some "A")] := by decide +kernel
  have hkey : lex "\"construct\"".toList = [.string (some "construct")] := by decide +kernel
  have hasync : lex "\"async\"".toList = [.string (some "async")] := by decide +kernel
  have htrue : lex "true".toList = [.bool true] := by decide +kernel
  exact .object (.more hname (.token hA rfl)
    (.last hkey (.object (.last hasync (.token htrue rfl)))))

theorem spells_rearrangedText : Spells rearrangedText.toList rearrangedRoot := by
  have hkey : lex " \"construct\"".toList = [.string (some "construct")] := by decide +kernel
  have hsince : lex "\"since\"".toList = [.string (some "since")] := by decide +kernel
  have hnumber : lex "1e999".toList = [.number ⟨false, [1], [], some (false, [9, 9, 9])⟩] := by
    decide +kernel
  have hasync : lex "\"async\"".toList = [.string (some "async")] := by decide +kernel
  have htrue : lex "true".toList = [.bool true] := by decide +kernel
  have hname : lex "\"className\"".toList = [.string (some "className")] := by decide +kernel
  have hA : lex "\"A\"".toList = [.string (some "A")] := by decide +kernel
  have hconstruct := Spells.object (.more hsince (.array (.last (.token hnumber rfl)))
    (.last hasync (.token htrue rfl)))
  exact .object (.more hkey hconstruct (.last hname (.token hA rfl)))

/-- The rearranged text is decoded like the plain one. -/
theorem decode_rearrangedText :
    ∃ c, decode classRecord plainText = .ok c ∧ decode classRecord rearrangedText = .ok c ∧
      c.name = "A" := by
  obtain ⟨c, hc, hname⟩ : ∃ c, decode classRecord plainText = .ok c ∧ c.name = "A" :=
    ⟨_, rfl, rfl⟩
  have hdecode :=
    decode_of_varies spells_plainText spells_rearrangedText classVaries_plainRoot hc
  exact ⟨c, hc, hdecode.1, hname⟩

end Ambient
