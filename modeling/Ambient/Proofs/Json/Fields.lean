import Mathlib.Data.List.Forall2
import Mathlib.Data.List.Nodup
import Mathlib.Data.List.Pairwise
import Ambient.Json.Record
import Ambient.Proofs.Except

/-!
# What the fields of a record do to it

A record that is written as an object is the blank record with one update for
each field that it knows (`Schema.record_object_eq_ok_iff`). The updates of
different fields set different parts of the record, so their order is nothing
to it (`Schema.Reads.updated_eq_of_perm`), a part is what the one field for it
says (`Schema.Independent.read_eq_ok`), and fields of other names change nothing
(`Schema.Reads.append_foreign`).
-/

namespace Ambient.Json

variable {α ρ : Type} {left : Nat} {n n' : Node} {fields fields' : List (Key × Node)}

theorem skip_eq_ok_iff {u : Unit} : skip n = .ok u ↔ n.sound := by
  unfold skip
  split
  · rename_i hsound
    exact iff_of_true rfl hsound
  · rename_i hsound
    refine iff_of_false (fun h => ?_) hsound
    cases h

theorem enter_eq_ok_iff {inner : Nat} : enter left = .ok inner ↔ left = inner + 1 := by
  cases left with
  | zero => simp [enter]
  | succ left => simp [enter]

theorem whenClosed_eq_ok_iff {closed : Bool} {a b : α} :
    whenClosed closed a = .ok b ↔ closed = true ∧ a = b := by
  cases closed <;> simp [whenClosed]

namespace Schema

variable {s : Schema ρ} {seen seen' : List String} {r r' : ρ}
variable {updates : List (String × (ρ → ρ))}

/-- What the fields of an object contribute: each known field an update, and
each other field nothing, if it is complete and the record admits it. -/
inductive Reads (s : Schema ρ) (left : Nat) :
    List (Key × Node) → List (String × (ρ → ρ)) → Prop
  | nil : Reads s left [] []
  | known {key : String} {n : Node} {read : Reader (ρ → ρ)} {update : ρ → ρ}
      {fields : List (Key × Node)} {updates : List (String × (ρ → ρ))}
      (hlookup : s.fields.lookup key = some read) (hread : read left n = .ok update)
      (hrest : Reads s left fields updates) :
      Reads s left ((.text key, n) :: fields) ((key, update) :: updates)
  | unknown {key : String} {n : Node} {fields : List (Key × Node)}
      {updates : List (String × (ρ → ρ))} (hstrict : s.strict = false)
      (hlookup : s.fields.lookup key = none) (hsound : n.sound)
      (hrest : Reads s left fields updates) :
      Reads s left ((.text key, n) :: fields) updates

/-- The record after updates, one made after the other. -/
def updated (r : ρ) (updates : List (String × (ρ → ρ))) : ρ :=
  updates.foldl (fun r update => update.2 r) r

/-- One field of an object: a known one is read if its key is new, another one
is passed over. -/
theorem readFields_cons_eq_ok_iff {key : Key} {out : List String × ρ} :
    s.readFields left seen r ((key, n) :: fields) = .ok out ↔
      (∃ k read update, key = .text k ∧ s.fields.lookup k = some read ∧ k ∉ seen ∧
        read left n = .ok update ∧ s.readFields left (k :: seen) (update r) fields = .ok out) ∨
      ∃ k, key = .text k ∧ s.strict = false ∧ s.fields.lookup k = none ∧ n.sound ∧
        s.readFields left seen r fields = .ok out := by
  cases key with
  | unpaired => simp [readFields]
  | misplaced t => simp [readFields]
  | text k =>
    rw [readFields]
    cases hlookup : s.fields.lookup k with
    | some read =>
      by_cases hseen : k ∈ seen
      · simp [hseen, hlookup, -List.lookup_eq_none_iff]
      · simp [hseen, hlookup, bind_eq_ok_iff, -List.lookup_eq_none_iff]
    | none =>
      cases hstrict : s.strict with
      | true => simp [hlookup, -List.lookup_eq_none_iff]
      | false => simp [hlookup, bind_eq_ok_iff, skip_eq_ok_iff, -List.lookup_eq_none_iff]

/-- **What reading the fields of an object does**: it makes the updates of the
known fields, each of which may be there once. -/
theorem readFields_eq_ok_iff :
    s.readFields left seen r fields = .ok (seen', r') ↔
      ∃ updates, s.Reads left fields updates ∧ (updates.map Prod.fst).Nodup ∧
        (∀ key ∈ updates.map Prod.fst, key ∉ seen) ∧
        seen' = (updates.map Prod.fst).reverse ++ seen ∧ r' = updated r updates := by
  induction fields generalizing seen r with
  | nil =>
    constructor
    · intro h
      cases h
      exact ⟨[], .nil, List.nodup_nil, by simp, rfl, rfl⟩
    · rintro ⟨updates, hreads, -, -, rfl, rfl⟩
      cases hreads
      rfl
  | cons field fields ih =>
    rw [readFields_cons_eq_ok_iff]
    constructor
    · rintro (⟨k, read, update, hkey, hlookup, hseen, hread, h⟩ |
        ⟨k, hkey, hstrict, hlookup, hsound, h⟩)
      · obtain ⟨_, n⟩ := field
        cases hkey
        obtain ⟨updates, hreads, hnodup, hnew, rfl, rfl⟩ := ih.1 h
        refine ⟨(k, update) :: updates, .known hlookup hread hreads, ?_, ?_, by simp, rfl⟩
        · rw [List.map_cons, List.nodup_cons]
          exact ⟨fun hmem => hnew k hmem List.mem_cons_self, hnodup⟩
        · rw [List.map_cons, List.forall_mem_cons]
          exact ⟨hseen, fun other hother hmem => hnew other hother (List.mem_cons_of_mem _ hmem)⟩
      · obtain ⟨_, n⟩ := field
        cases hkey
        obtain ⟨updates, hreads, hrest⟩ := ih.1 h
        exact ⟨updates, .unknown hstrict hlookup hsound hreads, hrest⟩
    · rintro ⟨updates, hreads, hnodup, hnew, rfl, rfl⟩
      cases hreads with
      | known hlookup hread hrest =>
        rw [List.map_cons, List.nodup_cons] at hnodup
        rw [List.map_cons, List.forall_mem_cons] at hnew
        refine .inl ⟨_, _, _, rfl, hlookup, hnew.1, hread, ih.2 ⟨_, hrest, hnodup.2, ?_, ?_, rfl⟩⟩
        · intro other hother
          rw [List.mem_cons, not_or]
          exact ⟨fun heq => hnodup.1 (heq ▸ hother), hnew.2 other hother⟩
        · simp
      | unknown hstrict hlookup hsound hrest =>
        exact .inr ⟨_, rfl, hstrict, hlookup, hsound, ih.2 ⟨_, hrest, hnodup, hnew, rfl, rfl⟩⟩

/-- **What reading an object does** to the blank record, when it is a record. -/
theorem record_object_eq_ok_iff {closed : Bool} :
    s.record left (.object fields closed) = .ok r ↔
      ∃ inner updates, left = inner + 1 ∧ closed = true ∧ s.Reads inner fields updates ∧
        (updates.map Prod.fst).Nodup ∧ (∀ key, s.required = some key → key ∈ updates.map Prod.fst) ∧
        r = updated s.blank updates := by
  constructor
  · intro h
    obtain ⟨inner, henter, h⟩ := bind_eq_ok_iff.1 h
    obtain ⟨⟨seen, r'⟩, hread, h⟩ := bind_eq_ok_iff.1 h
    obtain ⟨_, hclosed, h⟩ := bind_eq_ok_iff.1 h
    obtain ⟨updates, hreads, hnodup, -, rfl, rfl⟩ := readFields_eq_ok_iff.1 hread
    obtain ⟨rfl, rfl⟩ := whenClosed_eq_ok_iff.1 hclosed
    refine ⟨inner, updates, enter_eq_ok_iff.1 henter, rfl, hreads, hnodup, ?_⟩
    cases hrequired : s.required with
    | none =>
      simp only [hrequired] at h
      cases h
      exact ⟨fun key hkey => (by cases hkey), rfl⟩
    | some key =>
      simp only [hrequired] at h
      split at h
      · rename_i hmem
        cases h
        refine ⟨fun other hother => ?_, rfl⟩
        cases hother
        simpa using hmem
      · cases h
  · rintro ⟨inner, updates, rfl, rfl, hreads, hnodup, hrequired, rfl⟩
    have hread : s.readFields inner [] s.blank fields =
        .ok ((updates.map Prod.fst).reverse ++ [], updated s.blank updates) :=
      readFields_eq_ok_iff.2 ⟨updates, hreads, hnodup, by simp, rfl, rfl⟩
    refine bind_eq_ok_iff.2 ⟨inner, rfl, bind_eq_ok_iff.2 ⟨_, hread, ?_⟩⟩
    refine bind_eq_ok_iff.2 ⟨_, whenClosed_eq_ok_iff.2 ⟨rfl, rfl⟩, ?_⟩
    cases hkey : s.required with
    | none => rfl
    | some key => exact if_pos (by simpa using hrequired key hkey)

/-! ## Another order -/

/-- The updates of a permutation are a permutation of the updates. -/
theorem Reads.exists_perm (h : s.Reads left fields updates) (hperm : fields.Perm fields') :
    ∃ updates', updates.Perm updates' ∧ s.Reads left fields' updates' := by
  induction hperm generalizing updates with
  | nil => exact ⟨updates, .rfl, h⟩
  | cons field _ ih =>
    cases h with
    | known hlookup hread hrest =>
      obtain ⟨updates', hperm, hreads⟩ := ih hrest
      exact ⟨_, hperm.cons _, .known hlookup hread hreads⟩
    | unknown hstrict hlookup hsound hrest =>
      obtain ⟨updates', hperm, hreads⟩ := ih hrest
      exact ⟨_, hperm, .unknown hstrict hlookup hsound hreads⟩
  | swap field field' fields =>
    cases h with
    | known hlookup hread hrest =>
      cases hrest with
      | known hlookup' hread' hrest =>
        exact ⟨_, .swap _ _ _, .known hlookup' hread' (.known hlookup hread hrest)⟩
      | unknown hstrict hlookup' hsound hrest =>
        exact ⟨_, .rfl, .unknown hstrict hlookup' hsound (.known hlookup hread hrest)⟩
    | unknown hstrict hlookup hsound hrest =>
      cases hrest with
      | known hlookup' hread' hrest =>
        exact ⟨_, .rfl, .known hlookup' hread' (.unknown hstrict hlookup hsound hrest)⟩
      | unknown _ hlookup' hsound' hrest =>
        exact ⟨_, .rfl, .unknown hstrict hlookup' hsound' (.unknown hstrict hlookup hsound hrest)⟩
  | trans _ _ ih ih' =>
    obtain ⟨updates', hperm, hreads⟩ := ih h
    obtain ⟨updates'', hperm', hreads'⟩ := ih' hreads
    exact ⟨updates'', hperm.trans hperm', hreads'⟩

/-- The field has a name of its own that the record does not know, and a value
that is complete. -/
def Foreign (s : Schema ρ) (field : Key × Node) : Prop :=
  ∃ key, field.1 = .text key ∧ key ∉ s.fields.map Prod.fst ∧ field.2.sound

/-- Foreign fields contribute nothing. -/
theorem Reads.append_foreign (h : s.Reads left fields updates) (hstrict : s.strict = false)
    {added : List (Key × Node)} (hadded : ∀ field ∈ added, s.Foreign field) :
    s.Reads left (fields ++ added) updates := by
  induction h with
  | nil =>
    rw [List.nil_append]
    induction added with
    | nil => exact .nil
    | cons field added ih =>
      obtain ⟨⟨key, hkey, hforeign, hsound⟩, hrest⟩ := List.forall_mem_cons.1 hadded
      obtain ⟨_, n⟩ := field
      cases hkey
      exact .unknown hstrict (lookup_eq_none_iff_notMem.2 hforeign) hsound (ih hrest)
  | known hlookup hread _ ih => exact .known hlookup hread ih
  | unknown hstrict hlookup hsound _ ih => exact .unknown hstrict hlookup hsound ih

/-- The update of every known field is made. -/
theorem Reads.exists_update (h : s.Reads left fields updates) {key : String} {n : Node}
    (hmem : (.text key, n) ∈ fields) {read : Reader (ρ → ρ)}
    (hlookup : s.fields.lookup key = some read) :
    ∃ update, (key, update) ∈ updates ∧ read left n = .ok update := by
  induction h with
  | nil => cases hmem
  | known hknown hread _ ih =>
    obtain heq | hmem := List.mem_cons.1 hmem
    · cases heq
      rw [hlookup] at hknown
      cases hknown
      exact ⟨_, List.mem_cons_self, hread⟩
    · obtain ⟨update, hupdate, hread⟩ := ih hmem
      exact ⟨update, List.mem_cons_of_mem _ hupdate, hread⟩
  | unknown _ hunknown _ _ ih =>
    obtain heq | hmem := List.mem_cons.1 hmem
    · cases heq
      rw [hlookup] at hunknown
      cases hunknown
    · exact ih hmem

/-- Every update is one that a known field contributes. -/
theorem Reads.exists_read (h : s.Reads left fields updates) {update : String × (ρ → ρ)}
    (hmem : update ∈ updates) :
    ∃ read n, (update.1, read) ∈ s.fields ∧ read left n = .ok update.2 := by
  induction h with
  | nil => cases hmem
  | known hlookup hread _ ih =>
    obtain rfl | hmem := List.mem_cons.1 hmem
    · exact ⟨_, _, mem_of_lookup_eq_some hlookup, hread⟩
    · exact ih hmem
  | unknown _ _ _ _ ih => exact ih hmem

/-! ## Fields that do not meet -/

/-- What two fields contribute can be made in either order. -/
def Commute (read read' : Reader (ρ → ρ)) : Prop :=
  ∀ ⦃left left' n n' update update'⦄, read left n = .ok update → read' left' n' = .ok update' →
    ∀ r, update' (update r) = update (update' r)

/-- Any two fields of the record can be read in either order. -/
def Independent (s : Schema ρ) : Prop :=
  s.fields.Pairwise fun field field' => Commute field.2 field'.2

theorem commute_sets {β : Type} {set : α → ρ → ρ} {set' : β → ρ → ρ} {read : Reader α}
    {read' : Reader β} (h : ∀ a b r, set' b (set a r) = set a (set' b r)) :
    Commute (sets set read) (sets set' read') := by
  intro left left' n n' update update' hupdate hupdate' r
  obtain ⟨a, -, rfl⟩ := map_eq_ok_iff.1 hupdate
  obtain ⟨b, -, rfl⟩ := map_eq_ok_iff.1 hupdate'
  exact h a b r

theorem Independent.commute (h : s.Independent) {key key' : String} {read read' : Reader (ρ → ρ)}
    (hread : (key, read) ∈ s.fields) (hread' : (key', read') ∈ s.fields) (hne : key ≠ key') :
    Commute read read' := by
  have : Std.Symm fun field field' : String × Reader (ρ → ρ) => Commute field.2 field'.2 :=
    ⟨fun _ _ hcommute _ _ _ _ _ _ hupdate hupdate' r => (hcommute hupdate' hupdate r).symm⟩
  exact h.forall hread hread' fun heq => hne (congrArg Prod.fst heq)

/-- **The order of the updates is nothing to the record.** -/
theorem Reads.updated_eq_of_perm (h : s.Reads left fields updates) (hs : s.Independent)
    (hnodup : (updates.map Prod.fst).Nodup) {updates' : List (String × (ρ → ρ))}
    (hperm : updates.Perm updates') (r : ρ) : updated r updates = updated r updates' := by
  refine hperm.foldl_eq' (fun update hupdate update' hupdate' r => ?_) r
  by_cases hkey : update.1 = update'.1
  · rw [List.inj_on_of_nodup_map hnodup hupdate hupdate' hkey]
  · obtain ⟨read, n, hfield, hread⟩ := h.exists_read hupdate
    obtain ⟨read', n', hfield', hread'⟩ := h.exists_read hupdate'
    exact hs.commute hfield hfield' hkey hread hread' r

/-! ## What one field does to the record -/

/-- What can be done before all updates can be done after them. -/
theorem updated_comm {f : ρ → ρ} (h : ∀ update ∈ updates, ∀ r, update.2 (f r) = f (update.2 r))
    (r : ρ) : updated (f r) updates = f (updated r updates) := by
  induction updates generalizing r with
  | nil => rfl
  | cons update updates ih =>
    obtain ⟨hfirst, hrest⟩ := List.forall_mem_cons.1 h
    rw [updated, List.foldl_cons, hfirst, ← updated, ih hrest]
    rfl

/-- The update of one field can wait until all others are made. -/
theorem Reads.exists_updated_eq (h : s.Reads left fields updates) (hs : s.Independent)
    (hnodup : (updates.map Prod.fst).Nodup) {update : String × (ρ → ρ)} (hmem : update ∈ updates)
    (r : ρ) : ∃ r', updated r updates = update.2 r' := by
  obtain ⟨before, after, rfl⟩ := List.append_of_mem hmem
  have hperm : (before ++ update :: after).Perm (before ++ after ++ [update]) := by
    rw [List.append_assoc]
    exact (List.perm_append_singleton update after).symm.append_left before
  refine ⟨updated r (before ++ after), ?_⟩
  rw [h.updated_eq_of_perm hs hnodup hperm, updated, List.foldl_append]
  rfl

section

variable {key : String} {set : α → ρ → ρ} {read : Reader α} {part : ρ → α} {v : Node}

/-- **What a field says is what the record has**, if it sets a part of the record
and no other field meets it. -/
theorem Independent.read_eq_ok (hs : s.Independent)
    (hfield : s.fields.lookup key = some (sets set read)) (hset : ∀ a r, part (set a r) = a)
    (hrecord : s.record left n = .ok r) (hv : n.get? key = some v) :
    ∃ inner, read inner v = .ok (part r) := by
  cases n with
  | object fields closed =>
    obtain ⟨inner, updates, -, -, hreads, hnodup, -, rfl⟩ := record_object_eq_ok_iff.1 hrecord
    have hmem : (.text key, v) ∈ fields := by
      obtain ⟨field, hfind, rfl⟩ := Option.map_eq_some_iff.1 hv
      have hkey : field.1 = .text key := by simpa using List.find?_some hfind
      rw [← hkey]
      exact List.mem_reverse.1 (List.mem_of_find?_eq_some hfind)
    obtain ⟨update, hupdate, hread⟩ := hreads.exists_update hmem hfield
    obtain ⟨a, ha, rfl⟩ := map_eq_ok_iff.1 hread
    obtain ⟨r', hr'⟩ := hreads.exists_updated_eq hs hnodup hupdate s.blank
    exact ⟨inner, by rw [ha, hr', hset]⟩
  | _ => cases hv

/-- A part that no field says anything about is what it would be if a field said
so that changes nothing in the blank record. -/
theorem Independent.part_updated_blank (hs : s.Independent)
    (hfield : s.fields.lookup key = some (sets set read)) (hset : ∀ a r, part (set a r) = a)
    {left' : Nat} {a : α} (hblank : read left' v = .ok a) (hsame : set a s.blank = s.blank)
    (h : s.Reads left fields updates) (hnone : key ∉ updates.map Prod.fst) :
    part (updated s.blank updates) = a := by
  have hcomm : ∀ update ∈ updates, ∀ r, update.2 (set a r) = set a (update.2 r) := by
    intro update hupdate r
    obtain ⟨read', n', hfield', hread'⟩ := h.exists_read hupdate
    have hne : key ≠ update.1 := fun heq => hnone (heq ▸ List.mem_map_of_mem hupdate)
    exact hs.commute (mem_of_lookup_eq_some hfield) hfield' hne
      (map_eq_ok_iff.2 ⟨a, hblank, rfl⟩) hread' r
  rw [← hsame, updated_comm hcomm, hset]

end

end Schema

/-! ## Texts -/

/-- A text is decoded when its value is read and nothing follows it. -/
theorem decode_eq_ok_iff {read : Reader α} {text : String} {a : α} :
    decode read text = .ok a ↔
      read levels (Document.ofText text).root = .ok a ∧ (Document.ofText text).ended = true := by
  rw [decode, bind_eq_ok_iff]
  constructor
  · rintro ⟨b, hread, hclosed⟩
    obtain ⟨hended, rfl⟩ := whenClosed_eq_ok_iff.1 hclosed
    exact ⟨hread, hended⟩
  · rintro ⟨hread, hended⟩
    exact ⟨a, hread, whenClosed_eq_ok_iff.2 ⟨hended, rfl⟩⟩

end Ambient.Json
