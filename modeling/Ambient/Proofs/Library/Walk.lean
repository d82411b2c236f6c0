import Ambient.Library.Walk

/-!
# What a walk enters

A walk over the references of a library enters each class it can reach
once (`name_notMem_of_mem_walk`, `nodup_names_walk`), and when it is over
every reference of a class it entered leads to a class that was seen
(`mem_seenAfter_of_mem_next`). Open references can be taken one part after
the other, the second with what the first has seen (`walk_append`). So the
classes entered from a class are exactly those it reaches
(`exists_mem_walk_iff_reaches`).
-/

namespace Ambient

/-- The names a class refers to, in whatever relation. -/
def ClassRecord.referencedNames (c : ClassRecord) : List String :=
  c.superNames ++ c.interfaces ++ c.mixins

namespace Library

variable {ℓ : Type} {lib : Library} {next : ℓ → ClassRecord → List (ℓ × String)}
variable {seen : List String} {refs rest : List (ℓ × String)}
variable {label : ℓ} {name : String} {c : ClassRecord}

/-! ## The steps of a walk -/

@[simp] theorem walk_nil : lib.walk next seen [] = [] := by
  rw [walk]

theorem walk_cons_unknown (h : lib.find? name = none) :
    lib.walk next seen ((label, name) :: rest) = lib.walk next seen rest := by
  rw [walk]
  split
  · rfl
  · simp_all

theorem walk_cons_seen (h : name ∈ seen) :
    lib.walk next seen ((label, name) :: rest) = lib.walk next seen rest := by
  rw [walk]
  split
  · rfl
  · rw [if_pos h]

theorem walk_cons_new (h : lib.find? name = some c) (hseen : name ∉ seen) :
    lib.walk next seen ((label, name) :: rest) =
      (label, c) :: lib.walk next (name :: seen) (next label c ++ rest) := by
  rw [walk]
  split
  · simp_all
  · rename_i d hd
    rw [if_neg hseen, Option.some.inj (hd.symm.trans h)]

/-- The names seen when a walk is over. -/
def seenAfter (lib : Library) (next : ℓ → ClassRecord → List (ℓ × String)) (seen : List String)
    (refs : List (ℓ × String)) : List String :=
  ((lib.walk next seen refs).map (·.2.name)).reverse ++ seen

theorem mem_seenAfter :
    name ∈ lib.seenAfter next seen refs ↔
      name ∈ seen ∨ ∃ e ∈ lib.walk next seen refs, e.2.name = name := by
  simp [seenAfter, or_comm]

theorem mem_seenAfter_of_mem_seen (h : name ∈ seen) : name ∈ lib.seenAfter next seen refs :=
  mem_seenAfter.2 (.inl h)

theorem seenAfter_cons_new (h : lib.find? name = some c) (hseen : name ∉ seen) :
    lib.seenAfter next seen ((label, name) :: rest) =
      lib.seenAfter next (name :: seen) (next label c ++ rest) := by
  simp [seenAfter, walk_cons_new h hseen, name_of_find? h]

/-- Two parts of the open references are walked one after the other, the
second with what the first has seen. -/
theorem walk_append (xs ys : List (ℓ × String)) :
    lib.walk next seen (xs ++ ys) =
      lib.walk next seen xs ++ lib.walk next (lib.seenAfter next seen xs) ys := by
  induction seen, xs using walk.induct lib next with
  | case1 seen => simp [seenAfter]
  | case2 seen label name rest h ih =>
    rw [List.cons_append, walk_cons_unknown h, ih, seenAfter, seenAfter, walk_cons_unknown h]
  | case3 seen label name rest c h hseen ih =>
    rw [List.cons_append, walk_cons_seen hseen, ih, seenAfter, seenAfter, walk_cons_seen hseen]
  | case4 seen label name rest c h hseen ih =>
    rw [List.cons_append, walk_cons_new h hseen, walk_cons_new h hseen, ← List.append_assoc, ih,
      seenAfter_cons_new h hseen, List.cons_append]

theorem seenAfter_append (xs ys : List (ℓ × String)) :
    lib.seenAfter next seen (xs ++ ys) =
      lib.seenAfter next (lib.seenAfter next seen xs) ys := by
  simp [seenAfter, walk_append]

/-! ## The classes entered -/

/-- A walk enters classes of the library, under their own names. -/
theorem find?_of_mem_walk {e : ℓ × ClassRecord} (he : e ∈ lib.walk next seen refs) :
    lib.find? e.2.name = some e.2 := by
  induction seen, refs using walk.induct lib next with
  | case1 seen => simp at he
  | case2 seen label name rest h ih => exact ih (by rwa [walk_cons_unknown h] at he)
  | case3 seen label name rest c h hseen ih => exact ih (by rwa [walk_cons_seen hseen] at he)
  | case4 seen label name rest c h hseen ih =>
    rw [walk_cons_new h hseen] at he
    rcases List.mem_cons.1 he with rfl | he
    · exact (name_of_find? h).symm ▸ h
    · exact ih he

/-- It enters no class that was seen before. -/
theorem name_notMem_of_mem_walk {e : ℓ × ClassRecord} (he : e ∈ lib.walk next seen refs) :
    e.2.name ∉ seen := by
  induction seen, refs using walk.induct lib next with
  | case1 seen => simp at he
  | case2 seen label name rest h ih => exact ih (by rwa [walk_cons_unknown h] at he)
  | case3 seen label name rest c h hseen ih => exact ih (by rwa [walk_cons_seen hseen] at he)
  | case4 seen label name rest c h hseen ih =>
    rw [walk_cons_new h hseen] at he
    rcases List.mem_cons.1 he with rfl | he
    · exact (name_of_find? h).symm ▸ hseen
    · exact fun hmem => ih he (List.mem_cons_of_mem _ hmem)

/-- A known class that was seen only during the walk was entered. -/
theorem exists_mem_walk_of_mem_seenAfter (h : name ∈ lib.seenAfter next seen refs)
    (hnew : name ∉ seen) (hc : lib.find? name = some c) :
    ∃ label, (label, c) ∈ lib.walk next seen refs := by
  obtain ⟨e, he, hname⟩ := (mem_seenAfter.1 h).resolve_left hnew
  have hec : e.2 = c := Option.some.inj (by rw [← find?_of_mem_walk he, hname, hc])
  exact ⟨e.1, hec ▸ he⟩

/-- And each class once. -/
theorem nodup_names_walk : ((lib.walk next seen refs).map (·.2.name)).Nodup := by
  induction seen, refs using walk.induct lib next with
  | case1 seen => simp
  | case2 seen label name rest h ih => rwa [walk_cons_unknown h]
  | case3 seen label name rest c h hseen ih => rwa [walk_cons_seen hseen]
  | case4 seen label name rest c h hseen ih =>
    rw [walk_cons_new h hseen, List.map_cons, List.nodup_cons]
    refine ⟨fun hmem => ?_, ih⟩
    obtain ⟨e, he, hname⟩ := List.mem_map.1 hmem
    refine name_notMem_of_mem_walk he ?_
    rw [hname, name_of_find? h]
    exact List.mem_cons_self

/-! ## No reference is left open -/

/-- A known class that an open reference leads to is seen. -/
theorem mem_seenAfter_of_mem_refs (hr : (label, name) ∈ refs) (hc : lib.find? name = some c) :
    name ∈ lib.seenAfter next seen refs := by
  obtain ⟨before, after, rfl⟩ := List.append_of_mem hr
  rw [seenAfter_append]
  -- when the walk comes to the reference, the class was entered before or is now
  by_cases hseen : name ∈ lib.seenAfter next seen before
  · exact mem_seenAfter_of_mem_seen hseen
  · rw [seenAfter_cons_new hc hseen]
    exact mem_seenAfter_of_mem_seen List.mem_cons_self

/-- **A walk leaves nothing open.** A known class that an entered class
refers to is seen. -/
theorem mem_seenAfter_of_mem_next {e : ℓ × ClassRecord} (he : e ∈ lib.walk next seen refs)
    (hr : (label, name) ∈ next e.1 e.2) (hc : lib.find? name = some c) :
    name ∈ lib.seenAfter next seen refs := by
  induction seen, refs using walk.induct lib next with
  | case1 seen => simp at he
  | case2 seen label' name' rest h ih =>
    rw [seenAfter, walk_cons_unknown h]
    exact ih (by rwa [walk_cons_unknown h] at he)
  | case3 seen label' name' rest c' h hseen ih =>
    rw [seenAfter, walk_cons_seen hseen]
    exact ih (by rwa [walk_cons_seen hseen] at he)
  | case4 seen label' name' rest c' h hseen ih =>
    rw [seenAfter_cons_new h hseen]
    rw [walk_cons_new h hseen] at he
    rcases List.mem_cons.1 he with rfl | he
    · exact mem_seenAfter_of_mem_refs (List.mem_append_left _ hr) hc
    · exact ih he

/-! ## Reachability -/

variable {avoided : String} {names : List String}

/-- The known classes that a chain of references leads to from one of the
`names`, through known classes and without passing `avoided`. -/
inductive Reaches (lib : Library) (avoided : String) (names : List String) : ClassRecord → Prop
  | start {name : String} {c : ClassRecord} (hname : name ∈ names) (hc : lib.find? name = some c)
      (havoid : name ≠ avoided) : Reaches lib avoided names c
  | step {name : String} {c d : ClassRecord} (hc : Reaches lib avoided names c)
      (hname : name ∈ c.referencedNames) (hd : lib.find? name = some d)
      (havoid : name ≠ avoided) : Reaches lib avoided names d

/-- Without a name to start from nothing is reachable. -/
theorem not_reaches_nil : ¬ lib.Reaches avoided [] c := by
  intro h
  induction h with
  | start hname => cases hname
  | step _ _ _ _ ih => exact ih

/-- A reachable class is known and is not the one avoided. -/
theorem Reaches.find?_and_ne (h : lib.Reaches avoided names c) :
    lib.find? c.name = some c ∧ c.name ≠ avoided := by
  cases h with
  | start _ hc havoid | step _ _ hc havoid => exact name_of_find? hc ▸ ⟨hc, havoid⟩

/-- A walk that follows every reference of the records and no others. -/
def Follows (next : ℓ → ClassRecord → List (ℓ × String)) : Prop :=
  ∀ label c name, name ∈ (next label c).map Prod.snd ↔ name ∈ c.referencedNames

/-- What a walk enters is reachable. -/
theorem reaches_of_mem_walk (hnext : Follows next) (hseen : avoided ∈ seen)
    (hrefs : ∀ r ∈ refs,
      r.2 ∈ names ∨ ∃ d, lib.Reaches avoided names d ∧ r.2 ∈ d.referencedNames)
    {e : ℓ × ClassRecord} (he : e ∈ lib.walk next seen refs) :
    lib.Reaches avoided names e.2 := by
  induction seen, refs using walk.induct lib next with
  | case1 seen => simp at he
  | case2 seen label name rest h ih =>
    rw [walk_cons_unknown h] at he
    exact ih hseen (fun r hr => hrefs r (List.mem_cons_of_mem _ hr)) he
  | case3 seen label name rest c h hold ih =>
    rw [walk_cons_seen hold] at he
    exact ih hseen (fun r hr => hrefs r (List.mem_cons_of_mem _ hr)) he
  | case4 seen label name rest c h hnew ih =>
    -- the new class is one of the names, or a class entered before refers to it
    have hc : lib.Reaches avoided names c := by
      have havoid : name ≠ avoided := fun he => hnew (he ▸ hseen)
      rcases hrefs _ List.mem_cons_self with hname | ⟨d, hd, hname⟩
      · exact .start hname h havoid
      · exact .step hd hname h havoid
    rw [walk_cons_new h hnew] at he
    rcases List.mem_cons.1 he with rfl | he
    · exact hc
    · refine ih (List.mem_cons_of_mem _ hseen) (fun r hr => ?_) he
      rcases List.mem_append.1 hr with hr | hr
      · exact .inr ⟨c, hc, (hnext label c r.2).1 (List.mem_map_of_mem hr)⟩
      · exact hrefs r (List.mem_cons_of_mem _ hr)

/-- And what is reachable is entered by the walk that has only seen the class
to avoid. -/
theorem exists_mem_walk_of_reaches (hnext : Follows next)
    (hrefs : ∀ name ∈ names, name ∈ refs.map Prod.snd) (h : lib.Reaches avoided names c) :
    ∃ label, (label, c) ∈ lib.walk next [avoided] refs := by
  obtain ⟨hc, hne⟩ := h.find?_and_ne
  refine exists_mem_walk_of_mem_seenAfter ?_ (by simpa using hne) hc
  clear hc hne
  induction h with
  | start hname hc _ =>
    obtain ⟨r, hr, rfl⟩ := List.mem_map.1 (hrefs _ hname)
    exact name_of_find? hc ▸ mem_seenAfter_of_mem_refs hr hc
  | @step name c d hc hname hd _ ih =>
    -- the class before is entered, since it is not the one avoided
    obtain ⟨hfind, hne⟩ := hc.find?_and_ne
    obtain ⟨label, he⟩ := exists_mem_walk_of_mem_seenAfter ih (by simpa using hne) hfind
    obtain ⟨r, hr, rfl⟩ := List.mem_map.1 ((hnext label c name).2 hname)
    exact name_of_find? hd ▸ mem_seenAfter_of_mem_next he hr hd

/-- **A walk enters what can be reached**: from one class, with that class
seen, exactly the classes reachable without passing it. -/
theorem exists_mem_walk_iff_reaches (hnext : Follows next) :
    (∃ label, (label, c) ∈ lib.walk next [avoided] refs) ↔
      lib.Reaches avoided (refs.map Prod.snd) c := by
  constructor
  · rintro ⟨label, he⟩
    exact reaches_of_mem_walk hnext List.mem_cons_self
      (fun r hr => .inl (List.mem_map_of_mem hr)) he
  · exact exists_mem_walk_of_reaches hnext fun _ hname => hname

end Library

end Ambient
