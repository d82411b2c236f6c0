import Ambient.Proofs.Json.Fields

/-!
# Values with their fields rearranged

A value may be varied without a reader noticing: the fields of a record in
another order and others among them (`FieldsVary`), and below that the items of
an array and the entries of a table each in its place (`ItemsVary`,
`EntriesVary`). A reader that gives the same for both *keeps* the variation
(`Keeps`), and the reader of a whole keeps it when the readers of the parts do
(`keeps_record`). The places are not varied: a list and a table have what was
written in the order in which it was written (`Gives.list`, `Gives.table`).
-/

namespace Ambient

theorem forall₂_right {α β γ : Type} {R : α → β → Prop} {S : α → γ → Prop} {T : β → γ → Prop}
    (h : ∀ ⦃a b c⦄, R a b → S a c → T b c) {as : List α} {bs : List β} {cs : List γ}
    (hR : List.Forall₂ R as bs) (hS : List.Forall₂ S as cs) : List.Forall₂ T bs cs := by
  induction hR generalizing cs with
  | nil =>
    cases hS
    exact .nil
  | cons hfirst _ ih =>
    cases hS with
    | cons hfirst' hrest => exact .cons (h hfirst hfirst') (ih hrest)

namespace Json

variable {α ρ : Type} {left : Nat} {n n' : Node} {items items' : List Node}
variable {fields fields' : List (Key × Node)} {read : Reader α}
variable {Varies : Node → Node → Prop}

/-! ## What the readers of containers accept -/

theorem refuse_ne_ok (n : Node) (expected : String) (a : α) : n.refuse expected ≠ .ok a := by
  rw [Node.refuse]
  cases n.found with
  | error fault => exact fun h => by cases h
  | ok found => exact fun h => by cases h

/-- **A list is an array**, and its elements are the items in their order. -/
theorem list_eq_ok_iff {as : List α} :
    list read left n = .ok as ↔ ∃ inner items, left = inner + 1 ∧ n = .array items true ∧
      List.Forall₂ (fun item a => read inner item = .ok a) items as := by
  cases n with
  | array items closed =>
    constructor
    · intro h
      obtain ⟨inner, henter, h⟩ := bind_eq_ok_iff.1 h
      obtain ⟨values, hvalues, h⟩ := bind_eq_ok_iff.1 h
      obtain ⟨rfl, rfl⟩ := whenClosed_eq_ok_iff.1 h
      exact ⟨inner, items, enter_eq_ok_iff.1 henter, rfl, mapM_eq_ok_iff.1 hvalues⟩
    · rintro ⟨inner, items, rfl, heq, hvalues⟩
      cases heq
      exact bind_eq_ok_iff.2 ⟨inner, rfl, bind_eq_ok_iff.2 ⟨as, mapM_eq_ok_iff.2 hvalues, rfl⟩⟩
  | _ =>
    constructor
    · exact fun h => absurd h (refuse_ne_ok _ _ _)
    · rintro ⟨_, _, -, heq, -⟩
      cases heq

theorem readEntries_eq_ok_iff {read : Node → Except Fault α} {t t' : Table α} :
    readEntries read t fields = .ok t' ↔ ∃ es : List (String × α),
      List.Forall₂ (fun field e => field.1 = .text e.1 ∧ read field.2 = .ok e.2) fields es ∧
        t' = es.foldl (fun t e => t.insert e.1 e.2) t := by
  induction fields generalizing t with
  | nil =>
    constructor
    · intro h
      cases h
      exact ⟨[], .nil, rfl⟩
    · rintro ⟨es, hes, rfl⟩
      cases hes
      rfl
  | cons field fields ih =>
    obtain ⟨key | _ | _, n⟩ := field
    case unpaired | misplaced =>
      constructor
      · intro h
        cases h
      · rintro ⟨es, hes, -⟩
        cases hes with
        | cons hfield _ => cases hfield.1
    rw [readEntries, bind_eq_ok_iff]
    constructor
    · rintro ⟨a, ha, h⟩
      obtain ⟨es, hes, rfl⟩ := ih.1 h
      exact ⟨(key, a) :: es, .cons ⟨rfl, ha⟩ hes, rfl⟩
    · rintro ⟨es, hes, rfl⟩
      cases hes with
      | @cons _ e _ es hfield hrest =>
        obtain ⟨key', a⟩ := e
        obtain ⟨hkey, ha⟩ := hfield
        cases hkey
        exact ⟨a, ha, ih.2 ⟨es, hrest, rfl⟩⟩

/-- **A table is an object**, and its entries are the fields in their order. -/
theorem table_eq_ok_iff {t : Table α} :
    table read left n = .ok t ↔ ∃ inner fields es, left = inner + 1 ∧ n = .object fields true ∧
      List.Forall₂ (fun field (e : String × α) =>
        field.1 = .text e.1 ∧ read inner field.2 = .ok e.2) fields es ∧
      t = Table.ofList es := by
  cases n with
  | object fields closed =>
    constructor
    · intro h
      obtain ⟨inner, henter, h⟩ := bind_eq_ok_iff.1 h
      obtain ⟨t', hread, h⟩ := bind_eq_ok_iff.1 h
      obtain ⟨rfl, rfl⟩ := whenClosed_eq_ok_iff.1 h
      obtain ⟨es, hes, rfl⟩ := readEntries_eq_ok_iff.1 hread
      exact ⟨inner, fields, es, enter_eq_ok_iff.1 henter, rfl, hes, rfl⟩
    · rintro ⟨inner, fields, es, rfl, heq, hes, rfl⟩
      cases heq
      exact bind_eq_ok_iff.2 ⟨inner, rfl, bind_eq_ok_iff.2
        ⟨_, readEntries_eq_ok_iff.2 ⟨es, hes, rfl⟩, rfl⟩⟩
  | _ =>
    constructor
    · exact fun h => absurd h (refuse_ne_ok _ _ _)
    · rintro ⟨_, _, _, -, heq, -⟩
      cases heq

/-- A value that may be absent is null or what the reader takes it for. -/
theorem optional_eq_ok_iff {o : Option α} :
    optional read left n = .ok o ↔
      (n = .null ∧ o = none) ∨ (n ≠ .null ∧ ∃ a, read left n = .ok a ∧ o = some a) := by
  by_cases hnull : n = .null
  · subst hnull
    simp [optional, eq_comm]
  · have hread : optional read left n = (read left n).map some := by
      cases n with
      | null => exact absurd rfl hnull
      | _ => rfl
    rw [hread, map_eq_ok_iff]
    constructor
    · rintro ⟨a, ha, rfl⟩
      exact .inr ⟨hnull, a, ha, rfl⟩
    · rintro (⟨heq, -⟩ | ⟨-, a, ha, rfl⟩)
      · exact absurd heq hnull
      · exact ⟨a, ha, rfl⟩

/-! ## Variations -/

/-- Items that are varied, each in its place. -/
inductive ItemsVary (Varies : Node → Node → Prop) : Node → Node → Prop
  | same (n : Node) : ItemsVary Varies n n
  | items {items items' : List Node} (h : List.Forall₂ Varies items items') :
      ItemsVary Varies (.array items true) (.array items' true)

/-- Entries whose values are varied, each under its key and in its place. -/
inductive EntriesVary (Varies : Node → Node → Prop) : Node → Node → Prop
  | same (n : Node) : EntriesVary Varies n n
  | entries {fields fields' : List (Key × Node)}
      (h : List.Forall₂ (fun field field' => field.1 = field'.1 ∧ Varies field.2 field'.2)
        fields fields') :
      EntriesVary Varies (.object fields true) (.object fields' true)

/-- Fields of a record that are varied, each by its key, then put in any order
together with fields that the record does not know. -/
inductive FieldsVary (s : Schema ρ) (Varies : Key → Node → Node → Prop) : Node → Node → Prop
  | same (n : Node) : FieldsVary s Varies n n
  | fields {fields kept added fields' : List (Key × Node)}
      (hkept : List.Forall₂ (fun field field' => field.1 = field'.1 ∧
        Varies field.1 field.2 field'.2) fields kept)
      (hadded : ∀ field ∈ added, s.Foreign field) (hperm : (kept ++ added).Perm fields') :
      FieldsVary s Varies (.object fields true) (.object fields' true)

/-- What is read from a value is read from its variations. -/
def Keeps (read : Reader α) (Varies : Node → Node → Prop) : Prop :=
  ∀ ⦃left n n' a⦄, Varies n n' → read left n = .ok a → read left n' = .ok a

theorem keeps_eq (read : Reader α) : Keeps read Eq := by
  rintro left n n' a rfl h
  exact h

theorem Keeps.sets (h : Keeps read Varies) (set : α → ρ → ρ) : Keeps (sets set read) Varies := by
  intro left n n' update hvaries hread
  obtain ⟨a, ha, rfl⟩ := map_eq_ok_iff.1 hread
  exact map_eq_ok_iff.2 ⟨a, h hvaries ha, rfl⟩

theorem Keeps.list (h : Keeps read Varies) : Keeps (list read) (ItemsVary Varies) := by
  intro left n n' as hvaries hread
  cases hvaries with
  | same => exact hread
  | items hitems =>
    obtain ⟨inner, items, rfl, heq, hvalues⟩ := list_eq_ok_iff.1 hread
    cases heq
    refine list_eq_ok_iff.2 ⟨inner, _, rfl, rfl, ?_⟩
    refine forall₂_right (fun item item' a hitem ha => ?_) hitems hvalues
    exact h hitem ha

theorem Keeps.table (h : Keeps read Varies) : Keeps (table read) (EntriesVary Varies) := by
  intro left n n' t hvaries hread
  cases hvaries with
  | same => exact hread
  | entries hfields =>
    obtain ⟨inner, fields, es, rfl, heq, hes, rfl⟩ := table_eq_ok_iff.1 hread
    cases heq
    refine table_eq_ok_iff.2 ⟨inner, _, es, rfl, rfl, ?_, rfl⟩
    refine forall₂_right (fun field field' e hfield he => ?_) hfields hes
    exact ⟨hfield.1 ▸ he.1, h hfield.2 he.2⟩

/-- A value that may be absent is varied only when it is there. -/
theorem Keeps.optional (h : Keeps read Varies) (hread : ∀ left a, read left .null ≠ .ok a)
    (hvaries : ∀ n, Varies .null n → n = .null) : Keeps (optional read) Varies := by
  intro left n n' o hn hoptional
  obtain ⟨rfl, rfl⟩ | ⟨-, a, ha, rfl⟩ := optional_eq_ok_iff.1 hoptional
  · rw [hvaries n' hn]
    exact hoptional
  · have ha' := h hn ha
    refine optional_eq_ok_iff.2 (.inr ⟨?_, a, ha', rfl⟩)
    rintro rfl
    exact hread left a ha'

/-- Varied fields contribute the same updates. -/
theorem reads_of_varied {s : Schema ρ} {Varies : Key → Node → Node → Prop}
    (hknown : ∀ field ∈ s.fields, Keeps field.2 (Varies (.text field.1)))
    (hunknown : ∀ key, key ∉ s.fields.map Prod.fst → ∀ n n', Varies (.text key) n n' → n = n')
    {updates : List (String × (ρ → ρ))} (h : s.Reads left fields updates)
    (hvaried : List.Forall₂ (fun field field' => field.1 = field'.1 ∧
      Varies field.1 field.2 field'.2) fields fields') : s.Reads left fields' updates := by
  induction h generalizing fields' with
  | nil =>
    cases hvaried
    exact .nil
  | known hlookup hread _ ih =>
    cases hvaried with
    | @cons _ field' _ _ hfield hrest =>
      obtain ⟨key', n'⟩ := field'
      obtain ⟨hkey, hn⟩ := hfield
      cases hkey
      exact .known hlookup (hknown _ (mem_of_lookup_eq_some hlookup) hn hread) (ih hrest)
  | unknown hstrict hlookup hsound _ ih =>
    cases hvaried with
    | @cons _ field' _ _ hfield hrest =>
      obtain ⟨key', n'⟩ := field'
      obtain ⟨hkey, hn⟩ := hfield
      cases hkey
      cases hunknown _ (lookup_eq_none_iff_notMem.1 hlookup) _ _ hn
      exact .unknown hstrict hlookup hsound (ih hrest)

/-- **A record is the same however its fields are arranged.** -/
theorem keeps_record {s : Schema ρ} {Varies : Key → Node → Node → Prop} (hs : s.Independent)
    (hstrict : s.strict = false)
    (hknown : ∀ field ∈ s.fields, Keeps field.2 (Varies (.text field.1)))
    (hunknown : ∀ key, key ∉ s.fields.map Prod.fst → ∀ n n', Varies (.text key) n n' → n = n') :
    Keeps s.record (FieldsVary s Varies) := by
  intro left n n' r hvaries hread
  cases hvaries with
  | same => exact hread
  | @fields fields kept added fields' hkept hadded hperm =>
    obtain ⟨inner, updates, rfl, -, hreads, hnodup, hrequired, rfl⟩ :=
      Schema.record_object_eq_ok_iff.1 hread
    have hvaried : s.Reads inner kept updates := reads_of_varied hknown hunknown hreads hkept
    obtain ⟨updates', hupdates, hreads'⟩ :=
      (hvaried.append_foreign hstrict hadded).exists_perm hperm
    have hkeys : (updates.map Prod.fst).Perm (updates'.map Prod.fst) := hupdates.map _
    refine Schema.record_object_eq_ok_iff.2 ⟨inner, updates', rfl, rfl, hreads',
      hkeys.nodup_iff.1 hnodup, fun key hkey => hkeys.mem_iff.1 (hrequired key hkey), ?_⟩
    exact hreads.updated_eq_of_perm hs hnodup hupdates _

/-! ## What stays in its place -/

/-- What a reader gives is so related to the value that it reads. -/
def Gives (read : Reader α) (R : Node → α → Prop) : Prop :=
  ∀ ⦃left n a⦄, read left n = .ok a → R n a

/-- The value is this text. -/
def IsText (n : Node) (text : String) : Prop := n = .string (some text)

/-- A value that may be absent is null when it is. -/
def OptionalOf (R : Node → α → Prop) (n : Node) : Option α → Prop
  | none => n = .null
  | some a => R n a

/-- If the value is an array, the list has its items, each in its place. -/
def ItemsInOrder (R : Node → α → Prop) (n : Node) (as : List α) : Prop :=
  ∀ items closed, n = .array items closed → List.Forall₂ R items as

/-- The value is an object, and the table has its entries: the keys in the order
in which they first stand there, each with what stands under it last. -/
def EntriesInOrder (R : Node → α → Prop) (n : Node) (t : Table α) : Prop :=
  ∃ fields, n = .object fields true ∧ t.keys.map Key.text = (fields.map Prod.fst).eraseDups ∧
    ∀ key a, t.get? key = some a → ∃ v, n.get? key = some v ∧ R v a

/-- What stands under a key is so related to a part of what is read. -/
def FieldInOrder (n : Node) (key : String) (R : Node → α → Prop) (a : α) : Prop :=
  ∀ v, n.get? key = some v → R v a

variable {R : Node → α → Prop}

theorem gives_text : Gives text IsText := by
  intro left n a h
  unfold text at h
  split at h
  · cases h
    rfl
  · exact absurd h (refuse_ne_ok _ _ _)

theorem Gives.optional (h : Gives read R) : Gives (optional read) (OptionalOf R) := by
  intro left n o ho
  obtain ⟨rfl, rfl⟩ | ⟨-, a, ha, rfl⟩ := optional_eq_ok_iff.1 ho
  · rfl
  · exact h ha

theorem Gives.list (h : Gives read R) : Gives (list read) (ItemsInOrder R) := by
  intro left n as has items closed hn
  obtain ⟨inner, items', -, hn', hvalues⟩ := list_eq_ok_iff.1 has
  rw [hn] at hn'
  cases hn'
  exact hvalues.imp fun _ _ ha => h ha

theorem eraseDups_map {β : Type} [DecidableEq α] [DecidableEq β] {f : α → β}
    (hf : f.Injective) : ∀ as : List α, (as.map f).eraseDups = as.eraseDups.map f
  | [] => rfl
  | a :: as => by
    have hother : ((fun b => !b == f a) ∘ f) = fun b => !b == a := by
      funext b
      simp [hf.eq_iff]
    rw [List.map_cons, List.eraseDups_cons, List.eraseDups_cons, List.map_cons, List.filter_map,
      hother, eraseDups_map hf]
termination_by as => as.length
decreasing_by exact Nat.lt_succ_of_le (List.length_filter_le _ _)

/-- What a reader makes of a field is found where the field is. -/
theorem exists_field_of_lookup {es : List (String × α)}
    (hes : List.Forall₂ (fun field e => field.1 = .text e.1 ∧ R field.2 e.2) fields es)
    {key : String} {a : α} (h : es.lookup key = some a) :
    ∃ v, (fields.find? (·.1 = .text key)).map (·.2) = some v ∧ R v a := by
  induction hes with
  | nil => cases h
  | @cons field e fields es hfield _ ih =>
    obtain ⟨k, n⟩ := field
    obtain ⟨k', b⟩ := e
    obtain ⟨hk, hR⟩ := hfield
    cases hk
    by_cases hkey : key = k'
    · subst hkey
      rw [List.lookup_cons_self] at h
      cases h
      exact ⟨n, by simp, hR⟩
    · rw [List.lookup_cons, beq_eq_false_iff_ne.2 hkey] at h
      obtain ⟨v, hv, hR⟩ := ih h
      refine ⟨v, ?_, hR⟩
      rw [List.find?_cons_of_neg (by simpa using Ne.symm hkey)]
      exact hv

/-- **A table has the entries of its object**, in the order in which they are
written. -/
theorem Gives.table (h : Gives read R) : Gives (table read) (EntriesInOrder R) := by
  intro left n t ht
  obtain ⟨inner, fields, es, -, rfl, hes, rfl⟩ := table_eq_ok_iff.1 ht
  refine ⟨fields, rfl, ?_, fun key a ha => ?_⟩
  · have hkeys : fields.map Prod.fst = (es.map Prod.fst).map Key.text := by
      rw [List.map_map, ← List.forall₂_eq_eq_eq]
      exact List.forall₂_map_left_iff.2 (List.forall₂_map_right_iff.2 (hes.imp fun _ _ he => he.1))
    have htext : Key.text.Injective := fun a b heq => by cases heq; rfl
    rw [hkeys, eraseDups_map htext, Table.keys_ofList]
  · have hlast : es.reverse.lookup key = some a :=
      (Table.get?_ofList es key).symm.trans ha
    have hentries : List.Forall₂ (fun field (e : String × α) =>
        field.1 = .text e.1 ∧ R field.2 e.2) fields es := hes.imp fun _ _ he => ⟨he.1, h he.2⟩
    exact exists_field_of_lookup (List.forall₂_reverse_iff.2 hentries) hlast

/-- What stands under a key is what the record has. -/
theorem Schema.Independent.fieldInOrder {s : Schema ρ} {r : ρ} {key : String} {set : α → ρ → ρ}
    {part : ρ → α} (hs : s.Independent) (hfield : s.fields.lookup key = some (sets set read))
    (hset : ∀ a r, part (set a r) = a) (h : Gives read R) (hrecord : s.record left n = .ok r) :
    FieldInOrder n key R (part r) := by
  intro v hv
  obtain ⟨inner, hread⟩ := hs.read_eq_ok hfield hset hrecord hv
  exact h hread

end Json

end Ambient
