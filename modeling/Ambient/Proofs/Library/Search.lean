import Ambient.Proofs.Library.Walk

/-!
# Searching with and without a record of what was seen

A walk remembers every class it has entered, in whatever branch, and never
enters it again. A plain search remembers nothing but the path it is on.
This file shows that the first hit of both is the same
(`firstHit_walk_eq`): what a walk has seen and does not have open any more
is exhausted (`Exhausted`), so a plain search that comes there again finds
nothing (`search_eq_none`). A class that is cut while it is open does no
harm, because the plain search refuses it as well.
-/

namespace Ambient

namespace Library

variable {ℓ α : Type} {lib : Library} {next : ℓ → ClassRecord → List (ℓ × String)}
variable {hit : ClassRecord → Option α} {seen path : List String} {refs : List (ℓ × String)}
variable {label : ℓ} {name : String} {c : ClassRecord}

/-- The first hit of a search that keeps no record of what it has seen: at a
known class its own, else the first below its references in order. Only a
name on the path that leads there is refused. -/
def search (lib : Library) (next : ℓ → ClassRecord → List (ℓ × String))
    (hit : ClassRecord → Option α) (path : List String) (label : ℓ) (name : String) :
    Option (ℓ × α) :=
  match _h : lib.find? name with
  | none => none
  | some c =>
    if _hpath : name ∈ path then none
    else
      ((hit c).map (label, ·)).or
        ((next label c).findSome? fun r => lib.search next hit (name :: path) r.1 r.2)
  termination_by (lib.unseen path).length
  decreasing_by exact length_unseen_cons_lt (mem_names_of_find? _h) _hpath

theorem search_unknown (h : lib.find? name = none) :
    lib.search next hit path label name = none := by
  rw [search]
  split
  · rfl
  · simp_all

theorem search_of_mem_path (h : name ∈ path) : lib.search next hit path label name = none := by
  rw [search]
  split
  · rfl
  · rw [dif_pos h]

theorem search_known (h : lib.find? name = some c) (hpath : name ∉ path) :
    lib.search next hit path label name =
      ((hit c).map (label, ·)).or
        ((next label c).findSome? fun r => lib.search next hit (name :: path) r.1 r.2) := by
  rw [search]
  split
  · simp_all
  · rename_i d hd
    rw [dif_neg hpath, Option.some.inj (hd.symm.trans h)]

/-- The first hit among the classes of a walk, with the label of its class. -/
def firstHit (hit : ClassRecord → Option α) (es : List (ℓ × ClassRecord)) : Option (ℓ × α) :=
  es.findSome? fun e => (hit e.2).map (e.1, ·)

theorem firstHit_eq_none_iff {es : List (ℓ × ClassRecord)} :
    firstHit hit es = none ↔ ∀ e ∈ es, hit e.2 = none := by
  simp [firstHit]

/-! ## What is seen and not open is exhausted -/

/-- Every class seen and not on the path is done with: it has no hit, and the
known classes it refers to were seen too. -/
structure Exhausted (lib : Library) (hit : ClassRecord → Option α) (seen path : List String) :
    Prop where
  path_seen : ∀ name ∈ path, name ∈ seen
  no_hit : ∀ name c, lib.find? name = some c → name ∈ seen → name ∉ path → hit c = none
  closed : ∀ name c, lib.find? name = some c → name ∈ seen → name ∉ path →
    ∀ target ∈ c.referencedNames, lib.contains target → target ∈ seen

/-- **An exhausted class has nothing below it** that avoids the path: a plain
search with at least this path ends there without a hit. -/
theorem search_eq_none (hnext : Follows next) (hdone : Exhausted lib hit seen path)
    {path' : List String} (hsub : ∀ name ∈ path, name ∈ path') (hname : name ∈ seen) :
    lib.search next hit path' label name = none := by
  induction path', label, name using search.induct lib with
  | case1 path' label name h => exact search_unknown h
  | case2 path' label name c h hpath => exact search_of_mem_path hpath
  | case3 path' label name c h hpath ih =>
    have hopen : name ∉ path := fun hmem => hpath (hsub name hmem)
    rw [search_known h hpath, hdone.no_hit name c h hname hopen, Option.map_none, Option.none_or,
      List.findSome?_eq_none_iff]
    intro r hr
    -- a known target was seen, and an unknown one ends the search
    by_cases hr' : lib.contains r.2
    · refine ih r (fun n hn => List.mem_cons_of_mem _ (hsub n hn)) ?_
      exact hdone.closed name c h hname hopen r.2
        ((hnext label c r.2).1 (List.mem_map_of_mem hr)) hr'
    · refine search_unknown ?_
      simpa [contains] using hr'

/-- Opening a class keeps the rest exhausted. -/
theorem Exhausted.cons (h : Exhausted lib hit seen path) :
    Exhausted lib hit (name :: seen) (name :: path) where
  path_seen n hn := (List.mem_cons.1 hn).elim (fun e => e ▸ List.mem_cons_self)
    fun hn => List.mem_cons_of_mem _ (h.path_seen n hn)
  no_hit n c hc hn hpath := by
    rw [List.mem_cons, not_or] at hpath
    exact h.no_hit n c hc ((List.mem_cons.1 hn).resolve_left hpath.1) hpath.2
  closed n c hc hn hpath target ht hknown := by
    rw [List.mem_cons, not_or] at hpath
    exact List.mem_cons_of_mem _
      (h.closed n c hc ((List.mem_cons.1 hn).resolve_left hpath.1) hpath.2 target ht hknown)

/-- A walk without a hit exhausts what it enters. -/
theorem Exhausted.walk (hnext : Follows next) (h : Exhausted lib hit seen path)
    (hnone : firstHit hit (lib.walk next seen refs) = none) :
    Exhausted lib hit (lib.seenAfter next seen refs) path where
  path_seen n hn := mem_seenAfter_of_mem_seen (h.path_seen n hn)
  no_hit n c hc hn hpath := by
    by_cases hold : n ∈ seen
    · exact h.no_hit n c hc hold hpath
    · obtain ⟨label, he⟩ := exists_mem_walk_of_mem_seenAfter hn hold hc
      exact firstHit_eq_none_iff.1 hnone _ he
  closed n c hc hn hpath target ht hknown := by
    by_cases hold : n ∈ seen
    · exact mem_seenAfter_of_mem_seen (h.closed n c hc hold hpath target ht hknown)
    · obtain ⟨label, he⟩ := exists_mem_walk_of_mem_seenAfter hn hold hc
      obtain ⟨r, hr, rfl⟩ := List.mem_map.1 ((hnext label c target).2 ht)
      obtain ⟨d, hd⟩ := Option.isSome_iff_exists.1 hknown
      exact mem_seenAfter_of_mem_next he hr hd

/-! ## Both find the same -/

theorem length_unseen_seenAfter_le :
    (lib.unseen (lib.seenAfter next seen refs)).length ≤ (lib.unseen seen).length := by
  refine length_filter_le (fun n hn => ?_) lib.names
  simp only [decide_eq_true_eq] at hn ⊢
  exact fun hseen => hn (mem_seenAfter_of_mem_seen hseen)

theorem firstHit_append (xs ys : List (ℓ × ClassRecord)) :
    firstHit hit (xs ++ ys) = (firstHit hit xs).or (firstHit hit ys) := by
  simp [firstHit, List.findSome?_append]

/-- One open reference, when what it leads to is already known to be found
alike. -/
theorem firstHit_walk_singleton (hnext : Follows next) (hdone : Exhausted lib hit seen path)
    (hbelow : ∀ c, lib.find? name = some c → name ∉ seen →
      firstHit hit (lib.walk next (name :: seen) (next label c)) =
        (next label c).findSome? fun r => lib.search next hit (name :: path) r.1 r.2) :
    firstHit hit (lib.walk next seen [(label, name)]) =
      lib.search next hit path label name := by
  cases hc : lib.find? name with
  | none => rw [walk_cons_unknown hc, search_unknown hc, walk_nil]; rfl
  | some c =>
    by_cases hseen : name ∈ seen
    · rw [walk_cons_seen hseen, search_eq_none hnext hdone (fun _ h => h) hseen, walk_nil]
      rfl
    · have hpath : name ∉ path := fun h => hseen (hdone.path_seen name h)
      rw [walk_cons_new hc hseen, List.append_nil, search_known hc hpath, ← hbelow c hc hseen]
      cases hhit : hit c <;> simp [firstHit, hhit]

/-- **The record of what was seen never changes the first hit.** With what is
not open exhausted, a walk finds first what the plain search finds. -/
theorem firstHit_walk_eq (hnext : Follows next) (hdone : Exhausted lib hit seen path) :
    firstHit hit (lib.walk next seen refs) =
      refs.findSome? fun r => lib.search next hit path r.1 r.2 := by
  -- by the number of unseen names, then along the open references
  have main : ∀ n, ∀ seen path refs, (lib.unseen seen).length ≤ n →
      Exhausted lib hit seen path →
      firstHit hit (lib.walk next seen refs) =
        refs.findSome? fun r => lib.search next hit path r.1 r.2 := by
    intro n
    induction n using Nat.strongRecOn with
    | ind n ih =>
      intro seen path refs hn hdone
      induction refs generalizing seen with
      | nil => simp [firstHit]
      | cons r rest ihrest =>
        obtain ⟨label, name⟩ := r
        have hone : firstHit hit (lib.walk next seen [(label, name)]) =
            lib.search next hit path label name := by
          refine firstHit_walk_singleton hnext hdone fun c hc hseen => ?_
          have hlt := length_unseen_cons_lt (mem_names_of_find? hc) hseen
          exact ih _ (Nat.lt_of_lt_of_le hlt hn) _ _ _ (Nat.le_refl _) hdone.cons
        rw [← List.singleton_append, walk_append, firstHit_append, List.findSome?_append,
          List.findSome?_singleton, hone]
        cases hfirst : lib.search next hit path label name with
        | some found => rfl
        | none =>
          -- without a hit the first reference is exhausted, and the rest can go on
          simp only [Option.none_or]
          refine ihrest _ (Nat.le_trans length_unseen_seenAfter_le hn) ?_
          exact hdone.walk hnext (hone.trans hfirst)
  exact main _ seen path refs (Nat.le_refl _) hdone

/-- At the start nothing but the path is seen, and nothing has to be
exhausted. -/
theorem exhausted_self : Exhausted lib hit path path where
  path_seen _ h := h
  no_hit _ _ _ hseen hpath := absurd hseen hpath
  closed _ _ _ hseen hpath := absurd hseen hpath

end Library

end Ambient
