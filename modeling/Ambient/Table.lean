/-!
# Tables in insertion order

A table has each key once and keeps its entries in the order in which
their keys first came. Writing a key again replaces its value where it
stands, so the order is that of the first writes (`keys_foldl_insert`) and the
value that of the last (`get?_foldl_insert`).
-/

namespace Ambient

/-- The entries with `key` set to `a`: in its place, or at the end. -/
def upsert {α : Type} (key : String) (a : α) : List (String × α) → List (String × α)
  | [] => [(key, a)]
  | e :: rest => if e.1 = key then (key, a) :: rest else e :: upsert key a rest

/-- The keys after a write. -/
theorem keys_upsert {α : Type} (key : String) (a : α) (es : List (String × α)) :
    (upsert key a es).map Prod.fst =
      if key ∈ es.map Prod.fst then es.map Prod.fst else es.map Prod.fst ++ [key] := by
  induction es with
  | nil => rfl
  | cons e es ih =>
    by_cases h : e.1 = key
    · simp [upsert, h]
    · have h' : ¬ key = e.1 := fun hk => h hk.symm
      rw [upsert, if_neg h, List.map_cons, ih]
      by_cases hm : key ∈ es.map Prod.fst
      · rw [if_pos hm, if_pos (by simp only [List.map_cons, List.mem_cons]; exact .inr hm)]
        rfl
      · rw [if_neg hm, if_neg (by simp only [List.map_cons, List.mem_cons, not_or]; exact ⟨h', hm⟩)]
        rfl

/-- The values after a write. -/
theorem lookup_upsert {α : Type} (key : String) (a : α) (es : List (String × α))
    (other : String) :
    (upsert key a es).lookup other = if other = key then some a else es.lookup other := by
  have hne {k : String} (h : ¬ other = k) : (other == k) = false := beq_eq_false_iff_ne.2 h
  induction es with
  | nil =>
    by_cases h : other = key
    · simp [upsert, h]
    · simp [upsert, h, List.lookup_cons, hne h]
  | cons e es ih =>
    obtain ⟨k, b⟩ := e
    by_cases hk : k = key
    · by_cases h : other = key
      · simp [upsert, hk, h]
      · simp [upsert, hk, h, List.lookup_cons, hne h]
    · rw [upsert, if_neg (by exact hk), List.lookup_cons, List.lookup_cons, ih]
      by_cases h : other = key
      · subst h
        simp [hne fun e => hk e.symm]
      · simp [h]

/-- Of two writes of one key the second counts. -/
theorem upsert_upsert {α : Type} (key : String) (a b : α) (es : List (String × α)) :
    upsert key b (upsert key a es) = upsert key b es := by
  induction es with
  | nil => simp [upsert]
  | cons e es ih =>
    by_cases h : e.1 = key
    · simp [upsert, h]
    · simp [upsert, h, ih]

theorem mem_upsert {α : Type} {key : String} {a : α} {e : String × α} :
    ∀ {es : List (String × α)}, e ∈ upsert key a es → e = (key, a) ∨ e ∈ es
  | [], h => .inl (List.mem_singleton.1 h)
  | e' :: es, h => by
    rw [upsert] at h
    split at h
    · rcases List.mem_cons.1 h with h | h
      · exact .inl h
      · exact .inr (List.mem_cons_of_mem _ h)
    · rcases List.mem_cons.1 h with h | h
      · exact .inr (h ▸ List.mem_cons_self)
      · exact (mem_upsert h).imp_right (List.mem_cons_of_mem _)

theorem mem_of_lookup_eq_some {α : Type} {key : String} {a : α} :
    ∀ {es : List (String × α)}, es.lookup key = some a → (key, a) ∈ es
  | [], h => by simp at h
  | (k, b) :: es, h => by
    by_cases hk : key = k
    · subst hk
      simp only [List.lookup_cons_self, Option.some.injEq] at h
      exact h ▸ List.mem_cons_self
    · rw [List.lookup_cons, beq_eq_false_iff_ne.2 hk] at h
      exact List.mem_cons_of_mem _ (mem_of_lookup_eq_some h)

/-- With distinct keys every entry is found under its key. -/
theorem lookup_eq_some_of_mem {α : Type} {key : String} {a : α} :
    ∀ {es : List (String × α)}, (es.map Prod.fst).Nodup → (key, a) ∈ es → es.lookup key = some a
  | (k, b) :: es, hd, h => by
    rw [List.map_cons, List.nodup_cons] at hd
    rcases List.mem_cons.1 h with h | h
    · cases h
      exact List.lookup_cons_self
    · have hk : ¬ key = k := fun e => hd.1 (List.mem_map.2 ⟨(key, a), h, e⟩)
      rw [List.lookup_cons, beq_eq_false_iff_ne.2 hk]
      exact lookup_eq_some_of_mem hd.2 h

/-- With distinct keys it does not matter from which end entries are looked up. -/
theorem lookup_reverse {α : Type} {es : List (String × α)} (h : (es.map Prod.fst).Nodup)
    (key : String) : es.reverse.lookup key = es.lookup key := by
  have hreverse : (es.reverse.map Prod.fst).Nodup := by
    rw [List.map_reverse]
    exact List.pairwise_reverse.2 (h.imp Ne.symm)
  refine Option.ext fun a => ?_
  constructor
  · intro ha
    exact lookup_eq_some_of_mem h (List.mem_reverse.1 (mem_of_lookup_eq_some ha))
  · intro ha
    exact lookup_eq_some_of_mem hreverse (List.mem_reverse.2 (mem_of_lookup_eq_some ha))

theorem lookup_eq_none_iff_notMem {α : Type} {key : String} {es : List (String × α)} :
    es.lookup key = none ↔ key ∉ es.map Prod.fst := by
  rw [List.lookup_eq_none_iff, List.mem_map]
  constructor
  · rintro h ⟨e, he, rfl⟩
    exact absurd rfl (bne_iff_ne.1 (h e he))
  · intro h e he
    exact bne_iff_ne.2 fun heq => h ⟨e, he, heq.symm⟩

/-- Names without repetitions have none to erase. -/
theorem eraseDups_of_nodup {names : List String} (h : names.Nodup) : names.eraseDups = names := by
  induction names with
  | nil => rfl
  | cons name names ih =>
    obtain ⟨hnew, hrest⟩ := List.nodup_cons.1 h
    have hkept : (names.filter fun other => !other == name) = names := by
      refine List.filter_eq_self.2 fun other hother => ?_
      have hne : other ≠ name := fun heq => hnew (heq ▸ hother)
      simpa using hne
    rw [List.eraseDups_cons, hkept, ih hrest]

/-- A finite map from names that remembers the order of its keys. -/
structure Table (α : Type) where
  entries : List (String × α)
  distinct : (entries.map Prod.fst).Nodup

namespace Table

variable {α : Type}

/-- The table without entries. -/
def empty : Table α := ⟨[], List.nodup_nil⟩

instance : Inhabited (Table α) := ⟨empty⟩

/-- The keys in order. -/
def keys (t : Table α) : List String := t.entries.map Prod.fst

/-- The number of entries. -/
def size (t : Table α) : Nat := t.entries.length

/-- The value at a key. -/
def get? (t : Table α) (key : String) : Option α := t.entries.lookup key

/-- The key has a value. -/
def contains (t : Table α) (key : String) : Bool := (t.get? key).isSome

/-- The table with the value at `key` set to `a`. -/
def insert (t : Table α) (key : String) (a : α) : Table α where
  entries := upsert key a t.entries
  distinct := by
    rw [keys_upsert]
    split
    · exact t.distinct
    · rename_i h
      exact List.nodup_append.2 ⟨t.distinct, by simp,
        fun x hx y hy hxy => h (by simp only [List.mem_singleton] at hy; exact hy ▸ hxy ▸ hx)⟩

/-- The entries written one after the other. -/
def ofList (es : List (String × α)) : Table α :=
  es.foldl (fun t e => t.insert e.1 e.2) empty

theorem ext_entries {s t : Table α} (h : s.entries = t.entries) : s = t := by
  cases s; cases t; cases h; rfl

@[simp] theorem get?_empty (key : String) : (empty : Table α).get? key = none := rfl

/-- The entries are what the keys give. -/
theorem get?_eq_some_iff {t : Table α} {key : String} {a : α} :
    t.get? key = some a ↔ (key, a) ∈ t.entries :=
  ⟨mem_of_lookup_eq_some, lookup_eq_some_of_mem t.distinct⟩

/-- Tables with the same entries, in whatever order, hold the same values. -/
theorem get?_eq_of_perm {s t : Table α} (h : s.entries.Perm t.entries) : s.get? = t.get? := by
  funext key
  refine Option.ext fun a => ?_
  rw [get?_eq_some_iff, get?_eq_some_iff, h.mem_iff]

theorem contains_iff {t : Table α} {key : String} : t.contains key ↔ key ∈ t.keys := by
  rw [contains, Option.isSome_iff_exists, keys, List.mem_map]
  constructor
  · rintro ⟨a, h⟩
    exact ⟨(key, a), get?_eq_some_iff.1 h, rfl⟩
  · rintro ⟨⟨k, a⟩, h, rfl⟩
    exact ⟨a, get?_eq_some_iff.2 h⟩

theorem keys_insert (t : Table α) (key : String) (a : α) :
    (t.insert key a).keys = if key ∈ t.keys then t.keys else t.keys ++ [key] :=
  keys_upsert key a t.entries

theorem get?_insert (t : Table α) (key : String) (a : α) (other : String) :
    (t.insert key a).get? other = if other = key then some a else t.get? other :=
  lookup_upsert key a t.entries other

theorem get?_insert_self (t : Table α) (key : String) (a : α) :
    (t.insert key a).get? key = some a := by
  simp [get?_insert]

/-! ## Entries written one after the other -/

/-- The keys that are there keep their places, and the new ones follow. -/
theorem keys_foldl_insert (t : Table α) (es : List (String × α)) :
    (es.foldl (fun t e => t.insert e.1 e.2) t).keys =
      t.keys ++ ((es.map Prod.fst).filter (· ∉ t.keys)).eraseDups := by
  induction es generalizing t with
  | nil => simp
  | cons e es ih =>
    rw [List.foldl_cons, ih, keys_insert, List.map_cons]
    by_cases hkey : e.1 ∈ t.keys
    · rw [if_pos hkey, List.filter_cons_of_neg (by simpa using hkey)]
    · have hlater : ((es.map Prod.fst).filter fun k => k ∉ t.keys ++ [e.1]) =
          ((es.map Prod.fst).filter fun k => k ∉ t.keys).filter fun k => !k == e.1 := by
        rw [List.filter_filter]
        refine List.filter_congr fun k _ => ?_
        by_cases heq : k = e.1 <;> simp [heq]
      rw [if_neg hkey, List.filter_cons_of_pos (by simpa using hkey), List.eraseDups_cons, hlater,
        List.append_assoc, List.singleton_append]

/-- The last entry of a key counts, and where there is none what stood there. -/
theorem get?_foldl_insert (t : Table α) (es : List (String × α)) (key : String) :
    (es.foldl (fun t e => t.insert e.1 e.2) t).get? key =
      (es.reverse.lookup key).or (t.get? key) := by
  induction es generalizing t with
  | nil => rfl
  | cons e es ih =>
    obtain ⟨k, a⟩ := e
    rw [List.foldl_cons, ih, get?_insert, List.reverse_cons, List.lookup_append, Option.or_assoc]
    congr 1
    by_cases hkey : key = k
    · simp [hkey]
    · simp [hkey, List.lookup_cons, beq_eq_false_iff_ne.2 hkey]

/-- In a table of entries each key is there once, where it is written first. -/
theorem keys_ofList (es : List (String × α)) : (ofList es).keys = (es.map Prod.fst).eraseDups := by
  have hnew : (es.map Prod.fst).filter (· ∉ (empty : Table α).keys) = es.map Prod.fst :=
    List.filter_eq_self.2 (by simp [keys, empty])
  rw [ofList, keys_foldl_insert, hnew]
  rfl

/-- In a table of entries the last with a key counts. -/
theorem get?_ofList (es : List (String × α)) (key : String) :
    (ofList es).get? key = es.reverse.lookup key := by
  rw [ofList, get?_foldl_insert, get?_empty, Option.or_none]

theorem keys_ofList_of_nodup {es : List (String × α)} (h : (es.map Prod.fst).Nodup) :
    (ofList es).keys = es.map Prod.fst := by
  rw [keys_ofList, eraseDups_of_nodup h]

theorem get?_ofList_of_nodup {es : List (String × α)} (h : (es.map Prod.fst).Nodup)
    (key : String) : (ofList es).get? key = es.lookup key := by
  rw [get?_ofList, lookup_reverse h]

/-! ## A table over a table -/

/-- The table with the entries of another written over it. -/
def overlay (t u : Table α) : Table α :=
  u.entries.foldl (fun t e => t.insert e.1 e.2) t

/-- The upper table counts where it has an entry. -/
theorem get?_overlay (t u : Table α) (key : String) :
    (t.overlay u).get? key = (u.get? key).or (t.get? key) := by
  rw [overlay, get?_foldl_insert, lookup_reverse u.distinct]
  rfl

/-- The keys of the lower table keep their places, and the new ones follow. -/
theorem keys_overlay (t u : Table α) :
    (t.overlay u).keys = t.keys ++ u.keys.filter (· ∉ t.keys) := by
  have hnodup : (u.keys.filter (· ∉ t.keys)).Nodup := u.distinct.filter _
  rw [overlay, keys_foldl_insert, ← eraseDups_of_nodup hnodup]
  rfl

end Table

end Ambient
