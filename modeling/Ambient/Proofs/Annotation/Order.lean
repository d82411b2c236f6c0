import Ambient.Text.Search

/-!
# An order that rewriting climbs

Every rule that rewrites an annotation changes some first character of the
text, and what the character becomes stands higher in one fixed order. So a
text that was changed is never met again, however many rules follow: this
order is transitive and irreflexive (`Rises.trans`, `Rises.irrefl`). It
compares two texts at the first character in which they differ, by a rank
that may depend on the character before it. For a rule that rewrites the
texts with some pattern this is `Rewrites`, and rules that follow each other
rewrite the texts with any of their patterns (`Rewrites.comp`).
-/

namespace Ambient.Annotation

open Text

/-- The rank of a character behind another one. An `s` behind an `e` becomes
a capital, and elsewhere the capital becomes an `s`. -/
def rank (previous : Option Char) (c : Char) : Nat :=
  if previous = some 'e' then
    if c = 's' ∨ c = 'A' then 0 else 1
  else if c = 'd' then 0
  else if c ∈ ['A', 'B', 'C', 'D', 'E', 'I', 'L', 'M', 'N', 'O', 'P', 'S', 'T', 'W', '*', 'a', 'v']
    then 1
  else 2

/-- Only an `e` before a character matters for its rank. -/
theorem rank_eq_rank_none {previous : Option Char} (h : previous ≠ some 'e') :
    rank previous = rank none := by
  funext c
  have hnone : ¬ (none : Option Char) = some 'e' := by simp
  rw [rank, rank, if_neg h, if_neg hnone]

/-- The second text stands higher: at the first difference its character has
the higher rank. `previous` is the character before both. -/
inductive Rises : Option Char → List Char → List Char → Prop
  | head {previous : Option Char} {c d : Char} {s t : List Char}
      (h : rank previous c < rank previous d) : Rises previous (c :: s) (d :: t)
  | cons {previous : Option Char} {c : Char} {s t : List Char} (h : Rises (some c) s t) :
      Rises previous (c :: s) (c :: t)

variable {previous : Option Char} {s t u r : List Char} {c : Char}

namespace Rises

theorem irrefl : ¬ Rises previous s s := by
  induction s generalizing previous with
  | nil => intro h; cases h
  | cons c s ih =>
    intro h
    cases h with
    | head h => exact absurd h (Nat.lt_irrefl _)
    | cons h => exact ih h

theorem trans (hst : Rises previous s t) (htu : Rises previous t u) : Rises previous s u := by
  induction hst generalizing u with
  | head h =>
    cases htu with
    | head h' => exact .head (Nat.lt_trans h h')
    | cons _ => exact .head h
  | cons _ ih =>
    cases htu with
    | head h' => exact .head h'
    | cons h' => exact .cons (ih h')

/-- A common beginning does not matter. -/
theorem append_left (before : List Char) (h : Rises (before.getLast?.or previous) s t) :
    Rises previous (before ++ s) (before ++ t) := by
  induction before generalizing previous with
  | nil => simpa using h
  | cons c before ih =>
    refine .cons (ih ?_)
    -- the character before the rest is the last of what is left of the beginning
    cases before with
    | nil => simpa using h
    | cons d before =>
      rw [List.getLast?_cons_cons, List.getLast?_cons, Option.some_or] at h
      rwa [List.getLast?_cons, Option.some_or]

end Rises

/-- The two texts are the same or the second stands higher. -/
def Climbs (s t : List Char) : Prop := s = t ∨ Rises none s t

namespace Climbs

theorem trans (hst : Climbs s t) (htu : Climbs t u) : Climbs s u := by
  rcases hst with rfl | hst
  · exact htu
  · rcases htu with rfl | htu
    · exact .inr hst
    · exact .inr (hst.trans htu)

end Climbs

/-- What has risen still has after a climb. -/
theorem Rises.trans_climbs (hst : Rises none s t) (htu : Climbs t u) : Rises none s u := by
  rcases htu with rfl | htu
  · exact hst
  · exact hst.trans htu

/-! ## Rules -/

/-- The rule lets a text rise that has the pattern, and leaves every other
one as it is. -/
structure Rewrites (rule : List Char → List Char) (Pattern : List Char → Prop) : Prop where
  rises : ∀ s, Pattern s → Rises none s (rule s)
  settled : ∀ s, ¬ Pattern s → rule s = s

namespace Rewrites

variable {rule next : List Char → List Char} {Pattern Next : List Char → Prop}

/-- Exactly the texts without the pattern are left as they are. -/
theorem eq_self_iff (h : Rewrites rule Pattern) : rule s = s ↔ ¬ Pattern s := by
  refine ⟨fun hs hpattern => ?_, h.settled s⟩
  exact Rises.irrefl (hs ▸ h.rises s hpattern)

theorem ne_self_iff (h : Rewrites rule Pattern) : rule s ≠ s ↔ Pattern s := by
  rw [ne_eq, h.eq_self_iff, Classical.not_not]

theorem climbs (h : Rewrites rule Pattern) (s : List Char) : Climbs s (rule s) := by
  by_cases hs : Pattern s
  · exact .inr (h.rises s hs)
  · exact .inl (h.settled s hs).symm

/-- **One rule after another** lets a text rise that has either pattern: what
the first has changed, the second cannot change back. -/
theorem comp (h : Rewrites rule Pattern) (hnext : Rewrites next Next) :
    Rewrites (fun s => next (rule s)) (fun s => Pattern s ∨ Next s) where
  rises s hs := by
    by_cases hpattern : Pattern s
    · exact (h.rises s hpattern).trans_climbs (hnext.climbs (rule s))
    · rw [h.settled s hpattern]
      exact hnext.rises s (hs.resolve_left hpattern)
  settled s hs := by
    rw [not_or] at hs
    rw [h.settled s hs.1, hnext.settled s hs.2]

end Rewrites

/-! ## Comparing words -/

/-- The second word stands higher, at a character that both have. -/
def risesWithin : Option Char → List Char → List Char → Bool
  | previous, c :: s, d :: t =>
    if c = d then risesWithin (some c) s t else decide (rank previous c < rank previous d)
  | _, _, _ => false

/-- Then so does every text that begins with it. -/
theorem rises_of_risesWithin (h : risesWithin previous s t) (r r' : List Char) :
    Rises previous (s ++ r) (t ++ r') := by
  induction s generalizing previous t with
  | nil => simp [risesWithin] at h
  | cons c s ih =>
    cases t with
    | nil => simp [risesWithin] at h
    | cons d t =>
      by_cases hcd : c = d
      · subst hcd
        exact .cons (ih (by simpa [risesWithin] using h))
      · exact .head (by simpa [risesWithin, hcd] using h)

theorem Rises.of_none (h : Rises none s t) (hprevious : previous ≠ some 'e') :
    Rises previous s t := by
  cases h with
  | head h => exact .head (rank_eq_rank_none hprevious ▸ h)
  | cons h => exact .cons h

/-! ## Replacing hits -/

/-- When every replacement stands higher than what it replaces, a text with a
hit rises when its hits are replaced. -/
theorem rises_replaceEach {find : List Char → Option Hit}
    (hfind : ∀ previous s hit, find s = some hit →
      ∀ r, Rises previous s (hit.replacement ++ r))
    (h : ∃ t, t <:+ s ∧ (find t).isSome) : Rises previous s (replaceEach find 0 s) := by
  induction s generalizing previous with
  | nil =>
    obtain ⟨t, ht, hit⟩ := h
    obtain ⟨hit, hhit⟩ := Option.isSome_iff_exists.1 hit
    rw [List.suffix_nil.1 ht] at hhit
    cases hfind none _ _ hhit []
  | cons c s ih =>
    rw [replaceEach]
    cases hc : find (c :: s) with
    | some hit => exact hfind previous _ _ hc _
    | none =>
      -- up to the first hit both texts agree
      refine .cons (ih ?_)
      obtain ⟨t, ht, hit⟩ := h
      rcases List.suffix_cons_iff.1 ht with rfl | ht
      · simp [hc] at hit
      · exact ⟨t, ht, hit⟩

end Ambient.Annotation
