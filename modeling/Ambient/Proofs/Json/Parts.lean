import Ambient.Proofs.Json.Rearranged

/-!
# The parts of a record

A record may be written as an array of its fields. The object with these fields
under their keys says the same (`Schema.record_asObject`), so of a record that
is read one may always ask what is written under a key. If nothing is, that
part is the one of the blank record (`Schema.Independent.tells`).

What is written there is settled by what is read: a text, a list and a table
have one way of being written (`textNode`, `listNode`, `tableNode`), and their
readers accept no other.
-/

namespace Ambient.Json

variable {α ρ : Type} {left : Nat} {n : Node} {read : Reader α} {key : String}

/-- What stands under the key is so related to a value, or nothing does and the
value is the one that goes without saying. -/
def Tells (n : Node) (key : String) (R : Node → α → Prop) (unsaid a : α) : Prop :=
  (∃ v, n.get? key = some v ∧ R v a) ∨ (n.get? key = none ∧ a = unsaid)

namespace Schema

variable {s : Schema ρ} {r r' : ρ} {fields : List (Key × Node)} {closed : Bool}
variable {updates : List (String × (ρ → ρ))}

/-! ## Records written as arrays -/

/-- Items under the keys of the fields in whose places they stand. -/
def keyed (known : List (String × Reader (ρ → ρ))) (items : List Node) : List (Key × Node) :=
  known.zipWith (fun field item => (.text field.1, item)) items

/-- The object that says what an array of fields says. -/
def asObject (s : Schema ρ) : Node → Node
  | .array items closed => .object (keyed s.fields items) closed
  | n => n

/-- Every field can be told by its key, and the one that has to be there is known. -/
structure Keyed (s : Schema ρ) : Prop where
  nodup : (s.fields.map Prod.fst).Nodup
  required : ∀ key, s.required = some key → key ∈ s.fields.map Prod.fst

/-- The items of an array contribute what they contribute under their keys. -/
theorem reads_of_readItems {known : List (String × Reader (ρ → ρ))} {items : List Node}
    {position : Nat} (hknown : ∀ field ∈ known, s.fields.lookup field.1 = some field.2)
    (h : s.readItems left closed position r known items = .ok r') :
    closed = true ∧ ∃ updates, s.Reads left (keyed known items) updates ∧
      (updates.map Prod.fst).Sublist (known.map Prod.fst) ∧
      (∀ key, s.required = some key → key ∈ known.map Prod.fst → key ∈ updates.map Prod.fst) ∧
      r' = updated r updates := by
  -- on the fields: items may be fewer, and the fields that get none are met without them
  induction known generalizing items position r with
  | nil =>
    rw [readItems] at h
    split at h
    · rename_i hend
      obtain ⟨hitems, hclosed⟩ := Bool.and_eq_true_iff.1 hend
      obtain rfl := List.isEmpty_iff.1 hitems
      cases h
      exact ⟨hclosed, [], .nil, .slnil, fun _ _ hmem => hmem, rfl⟩
    · cases h
  | cons field known ih =>
    obtain ⟨hfield, hrest⟩ := List.forall_mem_cons.1 hknown
    obtain ⟨key, read⟩ := field
    cases items with
    | nil =>
      rw [readItems] at h
      split at h
      · cases h
      split at h
      · cases h
      rename_i hrequired
      obtain ⟨hclosed, updates, hreads, hsub, hmem, rfl⟩ := ih hrest h
      have hnone : keyed known [] = [] := List.zipWith_nil_right
      rw [hnone] at hreads
      refine ⟨hclosed, updates, hreads, hsub.cons _, fun other hother hknown => ?_, rfl⟩
      obtain rfl | hknown := List.mem_cons.1 hknown
      · exact absurd hother hrequired
      · exact hmem other hother hknown
    | cons n items =>
      obtain ⟨update, hread, h⟩ := bind_eq_ok_iff.1 h
      obtain ⟨hclosed, updates, hreads, hsub, hmem, rfl⟩ := ih hrest h
      refine ⟨hclosed, (key, update) :: updates, .known hfield hread hreads, hsub.cons_cons _,
        fun other hother hknown => ?_, rfl⟩
      obtain rfl | hknown := List.mem_cons.1 hknown
      · exact List.mem_cons_self
      · exact List.mem_cons_of_mem _ (hmem other hother hknown)

/-- **A record written as an array is the record written as an object**, each
item under the key of its place. -/
theorem record_asObject (hs : s.Keyed) (h : s.record left n = .ok r) :
    s.record left (s.asObject n) = .ok r := by
  cases n with
  | array items closed =>
    obtain ⟨inner, henter, h⟩ := bind_eq_ok_iff.1 h
    have hlookup : ∀ field ∈ s.fields, s.fields.lookup field.1 = some field.2 :=
      fun field hmem => lookup_eq_some_of_mem hs.nodup hmem
    obtain ⟨rfl, updates, hreads, hsub, hrequired, rfl⟩ := reads_of_readItems hlookup h
    exact record_object_eq_ok_iff.2 ⟨inner, updates, enter_eq_ok_iff.1 henter, rfl, hreads,
      hs.nodup.sublist hsub, fun key hkey => hrequired key hkey (hs.required key hkey), rfl⟩
  | _ => exact h

/-! ## What is written under a key -/

theorem exists_asObject_eq (h : s.record left n = .ok r) :
    ∃ fields closed, s.asObject n = .object fields closed := by
  cases n with
  | array items closed => exact ⟨_, _, rfl⟩
  | object fields closed => exact ⟨_, _, rfl⟩
  | _ => exact absurd h (refuse_ne_ok _ _ _)

/-- Every update is that of a field which is there. -/
theorem Reads.key_mem (h : s.Reads left fields updates) {update : String × (ρ → ρ)}
    (hmem : update ∈ updates) : .text update.1 ∈ fields.map Prod.fst := by
  induction h with
  | nil => cases hmem
  | known _ _ _ ih =>
    obtain rfl | hmem := List.mem_cons.1 hmem
    · exact List.mem_cons_self
    · exact List.mem_cons_of_mem _ (ih hmem)
  | unknown _ _ _ _ ih => exact List.mem_cons_of_mem _ (ih hmem)

/-- **A part of a record** is what stands under its key. When nothing does it is
that of the blank record, which a value can say as well. -/
theorem Independent.tells {set : α → ρ → ρ} {part : ρ → α} {R : Node → α → Prop}
    (hs : s.Independent) (hkeyed : s.Keyed) (hrecord : s.record left n = .ok r)
    (hfield : s.fields.lookup key = some (sets set read)) (hset : ∀ a r, part (set a r) = a)
    {left' : Nat} {v : Node} {a : α} (hblank : read left' v = .ok a)
    (hsame : set a s.blank = s.blank) (hR : Gives read R) :
    Tells (s.asObject n) key R a (part r) := by
  have hobject := record_asObject hkeyed hrecord
  obtain ⟨fields, closed, heq⟩ := exists_asObject_eq hrecord
  rw [heq] at hobject ⊢
  cases hkey : (Node.object fields closed).get? key with
  | some v =>
    obtain ⟨inner, hread⟩ := hs.read_eq_ok hfield hset hobject hkey
    exact .inl ⟨v, hkey, hR hread⟩
  | none =>
    obtain ⟨inner, updates, -, -, hreads, -, -, rfl⟩ := record_object_eq_ok_iff.1 hobject
    refine .inr ⟨hkey, hs.part_updated_blank hfield hset hblank hsame hreads fun hmem => ?_⟩
    -- an update of the part would be that of a field with its key
    obtain ⟨update, hupdate, rfl⟩ := List.mem_map.1 hmem
    obtain ⟨field, hfield, hname⟩ := List.mem_map.1 (hreads.key_mem hupdate)
    have hother := List.find?_eq_none.1 (Option.map_eq_none_iff.1 hkey) field
      (List.mem_reverse.2 hfield)
    simp [hname] at hother

end Schema

/-! ## Values with one way of being written -/

/-- A text as written. -/
def textNode (text : String) : Node := .string (some text)

/-- A list as written. -/
def listNode (write : α → Node) (as : List α) : Node := .array (as.map write) true

/-- Entries as written, in their order and with their repetitions. -/
def tableNode (write : α → Node) (es : List (String × α)) : Node :=
  .object (es.map fun e => (.text e.1, write e.2)) true

/-- A value that may be absent as written, with null for its absence. -/
def optionalNode (write : α → Node) (o : Option α) : Node := o.elim .null write

theorem textNode_injective : textNode.Injective := by
  intro a b heq
  cases heq
  rfl

variable {write : α → Node}

theorem listNode_injective (h : write.Injective) : (listNode write).Injective := by
  intro as bs heq
  obtain ⟨heq, -⟩ := Node.array.inj heq
  exact List.map_injective_iff.2 h heq

theorem tableNode_injective (h : write.Injective) : (tableNode write).Injective := by
  intro es es' heq
  obtain ⟨heq, -⟩ := Node.object.inj heq
  refine List.map_injective_iff.2 (fun e e' he => ?_) heq
  obtain ⟨hkey, hvalue⟩ := Prod.mk.inj he
  exact Prod.ext (Key.text.inj hkey) (h hvalue)

theorem optionalNode_injective (h : write.Injective) (hnull : ∀ a, write a ≠ .null) :
    (optionalNode write).Injective := by
  intro o o' heq
  cases o with
  | none =>
    cases o' with
    | none => rfl
    | some b => exact absurd heq.symm (hnull b)
  | some a =>
    cases o' with
    | none => exact absurd heq (hnull a)
    | some b => exact congrArg some (h heq)

/-- What is written under a key with one way of being written can be told. -/
theorem Tells.eq_of_injective (h : write.Injective) {unsaid a b : α}
    (ha : Tells n key (fun v a => v = write a) unsaid a)
    (hb : Tells n key (fun v a => v = write a) unsaid b) : a = b := by
  obtain ⟨v, hv, rfl⟩ | ⟨hnone, rfl⟩ := ha
  · obtain ⟨v', hv', rfl⟩ | ⟨hnone, -⟩ := hb
    · rw [hv, Option.some.injEq] at hv'
      exact h hv'
    · rw [hv] at hnone
      cases hnone
  · obtain ⟨v', hv', -⟩ | ⟨-, rfl⟩ := hb
    · rw [hnone] at hv'
      cases hv'
    · rfl

/-- What the reader reads is written so. -/
def Inverts (read : Reader α) (write : α → Node) : Prop := Gives read fun n a => n = write a

theorem inverts_text : Inverts text textNode := gives_text

theorem inverts_path : Inverts path textNode := by
  intro left n a h
  unfold path at h
  split at h
  · cases h
    rfl
  · exact absurd h (refuse_ne_ok _ _ _)

theorem Inverts.optional (h : Inverts read write) :
    Inverts (optional read) (optionalNode write) := by
  intro left n o ho
  obtain ⟨rfl, rfl⟩ | ⟨-, a, ha, rfl⟩ := optional_eq_ok_iff.1 ho
  · rfl
  · exact h ha

theorem Inverts.list (h : Inverts read write) : Inverts (list read) (listNode write) := by
  intro left n as has
  obtain ⟨inner, items, -, rfl, hvalues⟩ := list_eq_ok_iff.1 has
  have hitems : items = as.map write := by
    rw [← List.forall₂_eq_eq_eq, List.forall₂_map_right_iff]
    exact hvalues.imp fun _ _ ha => h ha
  rw [hitems, listNode]

/-- A table is what its entries make when they are written one after the other. -/
theorem Inverts.table (h : Inverts read write) :
    Gives (table read) fun n t => ∃ es, n = tableNode write es ∧ t = Table.ofList es := by
  intro left n t ht
  obtain ⟨inner, fields, es, -, rfl, hes, rfl⟩ := table_eq_ok_iff.1 ht
  have hfields : fields = es.map fun e => (.text e.1, write e.2) := by
    rw [← List.forall₂_eq_eq_eq, List.forall₂_map_right_iff]
    refine hes.imp fun field e hfield => ?_
    exact Prod.ext hfield.1 (h hfield.2)
  exact ⟨es, by rw [hfields, tableNode], rfl⟩

end Ambient.Json
