import Ambient.Proofs.Annotation.Brackets
import Ambient.Proofs.Annotation.Order

/-!
# Which texts the notation steps change

Each step has a pattern: a promise with nothing that continues it before it
(`OpensPromise`), a loose token with nothing that joins it on either side
(`HasLooseToken`), an array that is closed and not of the data namespace
(`OpensArray`). Each lets the texts with its pattern rise and leaves the
others as they are: `rewrites_qualifyPromises`, `rewrites_replaceLoose`,
`rewrites_bracketArrays`. None of them brings a question mark in.
-/

namespace Ambient.Annotation

open Text

variable {s t r rest : List Char} {c : Char} {hit : Hit} {previous : Option Char}

/-! ## Promises -/

/-- The text opens a promise, and the character before it does not continue
it. -/
def OpensPromise (s : List Char) : Prop :=
  ∃ before after, s = before ++ promiseOpen ++ after ∧
    ∀ c ∈ before.getLast?, continuesPromise c = false

theorem rises_globalPromise (hprevious : previous ≠ some 'e') (r r' : List Char) :
    Rises previous (promiseOpen ++ r) (globalPromise ++ r') :=
  .of_none (rises_of_risesWithin (by decide) r r') hprevious

theorem promiseHit?_eq_some (h : promiseHit? s = some hit) :
    ∃ c after, s = c :: (promiseOpen ++ after) ∧ continuesPromise c = false ∧
      hit.replacement = c :: globalPromise := by
  cases s with
  | nil => cases h
  | cons c s =>
    rw [promiseHit?] at h
    split at h
    · cases h
    · rename_i hc
      obtain ⟨after, hafter, rfl⟩ := Option.map_eq_some_iff.1 h
      exact ⟨c, after, by rw [after?_eq_some_iff.1 hafter], by simpa using hc, rfl⟩

theorem isSome_promiseHit? (hc : continuesPromise c = false) (after : List Char) :
    (promiseHit? (c :: (promiseOpen ++ after))).isSome := by
  simp [promiseHit?, hc]

theorem rises_of_promiseHit? (h : promiseHit? s = some hit) (r : List Char) :
    Rises previous s (hit.replacement ++ r) := by
  obtain ⟨c, after, rfl, hc, hreplacement⟩ := promiseHit?_eq_some h
  rw [hreplacement]
  refine .cons (rises_globalPromise ?_ after r)
  -- an `e` before the promise would continue it
  rintro ⟨⟩
  exact absurd hc (by decide)

/-- A promise that is not at the head of the text has a character of its own
before it. -/
theorem OpensPromise.exists_hit (h : OpensPromise s) (hhead : after? promiseOpen s = none) :
    ∃ t, t <:+ s ∧ (promiseHit? t).isSome := by
  obtain ⟨before, after, rfl, hbefore⟩ := h
  rcases List.eq_nil_or_concat before with rfl | ⟨before, c, rfl⟩
  · simp at hhead
  · refine ⟨c :: (promiseOpen ++ after), ⟨before, by simp⟩, ?_⟩
    exact isSome_promiseHit? (hbefore c (by simp)) after

/-- **Qualifying rewrites the texts that open a promise.** -/
theorem rewrites_qualifyPromises : Rewrites qualifyPromises OpensPromise where
  rises s h := by
    rw [qualifyPromises]
    split
    · rename_i rest hrest
      rw [after?_eq_some_iff.1 hrest]
      exact rises_globalPromise (by simp) rest _
    · rename_i hhead
      exact rises_replaceEach (fun _ _ _ hhit => rises_of_promiseHit? hhit) (h.exists_hit hhead)
  settled s h := by
    -- a promise at the head needs no character before it, and the hits cover the others
    have hhead : after? promiseOpen s = none := by
      rw [Option.eq_none_iff_forall_not_mem]
      exact fun rest hrest => h ⟨[], rest, after?_eq_some_iff.1 hrest, by simp⟩
    rw [qualifyPromises, hhead]
    refine replaceEach_eq_self fun t ht => ?_
    rw [Option.eq_none_iff_forall_not_mem]
    intro hit hhit
    obtain ⟨c, after, rfl, hc, -⟩ := promiseHit?_eq_some hhit
    obtain ⟨before, rfl⟩ := ht
    exact h ⟨before ++ [c], after, by simp, by simpa using hc⟩

instance : Decidable (OpensPromise s) :=
  decidable_of_iff _ rewrites_qualifyPromises.ne_self_iff

/-! ## Loose tokens -/

/-- The loose tokens. -/
def looseTokens : List (List Char) := [['v', 'a', 'r'], ['*']]

/-- The text has a loose token that neither side joins to its
surroundings. -/
def HasLooseToken (s : List Char) : Prop :=
  ∃ before token after, s = before ++ token ++ after ∧ token ∈ looseTokens ∧
    (∀ c ∈ before.getLast?, continuesLoose c = false) ∧
    ∀ c ∈ after.head?, continuesLoose c = false

theorem looseToken?_eq_some {size : Nat} (h : looseToken? s = some (size, rest)) :
    ∃ token ∈ looseTokens, s = token ++ rest := by
  rw [looseToken?] at h
  split at h
  · rename_i hafter
    cases h
    exact ⟨_, by simp [looseTokens], after?_eq_some_iff.1 hafter⟩
  · obtain ⟨rest, hafter, hpair⟩ := Option.map_eq_some_iff.1 h
    cases hpair
    exact ⟨_, by simp [looseTokens], after?_eq_some_iff.1 hafter⟩

theorem looseHead?_eq_some (h : looseHead? s = some hit) :
    ∃ token ∈ looseTokens, ∃ after, s = token ++ after ∧
      (∀ c ∈ after.head?, continuesLoose c = false) ∧
      hit.replacement = unknownType ++ after.head?.toList := by
  obtain ⟨⟨size, rest⟩, htoken, hrest⟩ := Option.bind_eq_some_iff.1 h
  obtain ⟨token, hmem, rfl⟩ := looseToken?_eq_some htoken
  refine ⟨token, hmem, rest, rfl, ?_⟩
  cases rest with
  | nil =>
    cases hrest
    exact ⟨by simp, by simp⟩
  | cons d rest =>
    cases hd : continuesLoose d with
    | true => simp [hd] at hrest
    | false =>
      simp only [hd, Bool.false_eq_true, if_false, Option.some.injEq] at hrest
      exact ⟨by simpa using hd, by simp [← hrest]⟩

theorem isSome_looseHead? {token after : List Char} (hmem : token ∈ looseTokens)
    (hafter : ∀ c ∈ after.head?, continuesLoose c = false) :
    (looseHead? (token ++ after)).isSome := by
  have htoken : ∃ size, looseToken? (token ++ after) = some (size, after) := by
    rcases List.mem_cons.1 hmem with rfl | hmem
    · exact ⟨3, by rw [looseToken?, after?_append]⟩
    · cases List.mem_singleton.1 hmem
      exact ⟨1, by simp [looseToken?, after?]⟩
  obtain ⟨size, htoken⟩ := htoken
  rw [looseHead?, htoken, Option.bind_some]
  cases after with
  | nil => rfl
  | cons d after => simp [hafter d rfl]

theorem rises_of_looseHead? (h : looseHead? s = some hit) (hprevious : previous ≠ some 'e')
    (r : List Char) : Rises previous s (hit.replacement ++ r) := by
  obtain ⟨token, hmem, after, rfl, -, hreplacement⟩ := looseHead?_eq_some h
  rw [hreplacement, List.append_assoc]
  have hall : ∀ token ∈ looseTokens, risesWithin none token unknownType = true := by decide
  exact .of_none (rises_of_risesWithin (hall token hmem) _ _) hprevious

theorem looseHit?_eq_some (h : looseHit? s = some hit) :
    ∃ c t hit', s = c :: t ∧ continuesLoose c = false ∧ looseHead? t = some hit' ∧
      hit.replacement = c :: hit'.replacement := by
  cases s with
  | nil => cases h
  | cons c s =>
    rw [looseHit?] at h
    split at h
    · cases h
    · rename_i hc
      obtain ⟨hit', hhead, rfl⟩ := Option.map_eq_some_iff.1 h
      exact ⟨c, s, hit', rfl, by simpa using hc, hhead, rfl⟩

theorem rises_of_looseHit? (h : looseHit? s = some hit) (r : List Char) :
    Rises previous s (hit.replacement ++ r) := by
  obtain ⟨c, t, hit', rfl, hc, hhead, hreplacement⟩ := looseHit?_eq_some h
  rw [hreplacement]
  refine .cons (rises_of_looseHead? hhead ?_ r)
  rintro ⟨⟩
  exact absurd hc (by decide)

/-- **One pass rewrites the texts that have a loose token.** -/
theorem rewrites_loosePass : Rewrites loosePass HasLooseToken where
  rises s h := by
    rw [loosePass]
    split
    · rename_i hit hhit
      exact rises_of_looseHead? hhit (by simp) _
    · -- with none at the head, the token has a character before it
      rename_i hhead
      refine rises_replaceEach (fun _ _ _ hhit => rises_of_looseHit? hhit) ?_
      obtain ⟨before, token, after, rfl, hmem, hbefore, hafter⟩ := h
      have hsome := isSome_looseHead? hmem hafter
      rcases List.eq_nil_or_concat before with rfl | ⟨before, c, rfl⟩
      · simp only [List.nil_append] at hhead
        simp [hhead] at hsome
      · refine ⟨c :: (token ++ after), ⟨before, by simp⟩, ?_⟩
        have hc : continuesLoose c = false := hbefore c (by simp)
        simpa [looseHit?, hc] using hsome
  settled s h := by
    have hhead : looseHead? s = none := by
      rw [Option.eq_none_iff_forall_not_mem]
      intro hit hhit
      obtain ⟨token, hmem, after, rfl, hafter, -⟩ := looseHead?_eq_some hhit
      exact h ⟨[], token, after, rfl, hmem, by simp, hafter⟩
    rw [loosePass, hhead]
    refine replaceEach_eq_self fun t ht => ?_
    rw [Option.eq_none_iff_forall_not_mem]
    intro hit hhit
    obtain ⟨c, u, hit', rfl, hc, hu, -⟩ := looseHit?_eq_some hhit
    obtain ⟨token, hmem, after, rfl, hafter, -⟩ := looseHead?_eq_some hu
    obtain ⟨before, rfl⟩ := ht
    exact h ⟨before ++ [c], token, after, by simp, hmem, by simpa using hc, hafter⟩

instance : Decidable (HasLooseToken s) :=
  decidable_of_iff _ rewrites_loosePass.ne_self_iff

theorem climbs_loosePasses (passes : Nat) (s : List Char) : Climbs s (loosePasses passes s) := by
  induction passes generalizing s with
  | zero => exact .inl rfl
  | succ passes ih =>
    simp only [loosePasses]
    split
    · exact .inl rfl
    · exact (rewrites_loosePass.climbs s).trans (ih _)

theorem looseMarks_ne_zero (h : HasLooseToken s) : looseMarks s ≠ 0 := by
  obtain ⟨before, token, after, rfl, hmem, -⟩ := h
  have hall : ∀ token ∈ looseTokens, looseMarks token ≠ 0 := by decide
  have htoken := hall token hmem
  simp only [looseMarks, List.countP_append] at htoken ⊢
  omega

/-- **All passes together rewrite the same texts.** A text with a loose token
has a mark, so there is a first pass. -/
theorem rewrites_replaceLoose : Rewrites replaceLoose HasLooseToken where
  rises s h := by
    have hrises := rewrites_loosePass.rises s h
    -- the first pass changes the text, so the passes go on with the changed one
    obtain ⟨passes, hpasses⟩ := Nat.exists_eq_succ_of_ne_zero (looseMarks_ne_zero h)
    simp only [replaceLoose, hpasses, loosePasses]
    rw [if_neg fun heq => Rises.irrefl (heq ▸ hrises)]
    exact hrises.trans_climbs (climbs_loosePasses passes _)
  settled s h := by
    have hself := rewrites_loosePass.settled s h
    rw [replaceLoose]
    cases looseMarks s with
    | zero => rfl
    | succ passes => simp [loosePasses, hself]

/-! Whatever holds on when a single token that stands alone is replaced by
`unknown` holds on through all passes (`replaceLoose_induction`). -/

theorem drop_of_looseToken? {size : Nat} (h : looseToken? s = some (size, rest)) :
    s.drop size = rest := by
  rw [looseToken?] at h
  split at h
  · rename_i hvar
    cases h
    rw [after?_eq_some_iff.1 hvar]
    rfl
  · obtain ⟨rest, hstar, hpair⟩ := Option.map_eq_some_iff.1 h
    cases hpair
    rw [after?_eq_some_iff.1 hstar]
    rfl

/-- At the head of a text only the token is replaced. -/
theorem append_drop_of_looseHead? (h : looseHead? s = some hit) :
    ∃ token ∈ looseTokens, ∃ after, s = token ++ after ∧
      (∀ c ∈ after.head?, continuesLoose c = false) ∧
      hit.replacement ++ s.drop hit.size = unknownType ++ after := by
  obtain ⟨⟨size, after⟩, htoken, hafter⟩ := Option.bind_eq_some_iff.1 h
  obtain ⟨token, hmem, hs⟩ := looseToken?_eq_some htoken
  have hdrop := drop_of_looseToken? htoken
  refine ⟨token, hmem, after, hs, ?_⟩
  cases after with
  | nil =>
    cases hafter
    rw [hdrop]
    exact ⟨by simp, rfl⟩
  | cons d after =>
    dsimp only at hafter
    split at hafter
    · cases hafter
    · rename_i hd
      cases hafter
      rw [← List.drop_drop, hdrop, List.append_assoc]
      exact ⟨by simpa using hd, rfl⟩

section LooseTokens

variable {motive : List Char → Prop}
variable (replace : ∀ before token after, token ∈ looseTokens →
  (∀ c ∈ before.getLast?, continuesLoose c = false) →
  (∀ c ∈ after.head?, continuesLoose c = false) →
  motive (before ++ (token ++ after)) → motive (before ++ (unknownType ++ after)))

include replace

/-- What replacing a single loose token preserves is preserved by a pass. -/
theorem loosePass_induction (h : motive s) : motive (loosePass s) := by
  have hhead : ∀ before t hit, looseHead? t = some hit →
      (∀ c ∈ before.getLast?, continuesLoose c = false) → motive (before ++ t) →
      motive (before ++ (hit.replacement ++ t.drop hit.size)) := by
    intro before t hit hhit hbefore ht
    obtain ⟨token, hmem, after, rfl, hafter, heq⟩ := append_drop_of_looseHead? hhit
    rw [heq]
    exact replace before token after hmem hbefore hafter ht
  have heach : ∀ before c t hit, looseHit? (c :: t) = some hit → motive (before ++ c :: t) →
      motive (before ++ (hit.replacement ++ t.drop (hit.size - 1))) := by
    intro before c t hit hhit ht
    rw [looseHit?] at hhit
    split at hhit
    · cases hhit
    · rename_i hc
      obtain ⟨hit, hlooseHead, rfl⟩ := Option.map_eq_some_iff.1 hhit
      simpa using hhead (before ++ [c]) t hit hlooseHead (by simpa using hc) (by simpa using ht)
  rw [loosePass]
  split
  · rename_i hit hhit
    exact replaceEach_induction heach (hhead [] s hit hhit (by simp) h)
  · have hhits : motive ([] ++ replaceEach looseHit? 0 s) := replaceEach_induction heach h
    exact hhits

theorem replaceLoose_induction (h : motive s) : motive (replaceLoose s) := by
  rw [replaceLoose]
  generalize looseMarks s = passes
  induction passes generalizing s with
  | zero => exact h
  | succ passes ih =>
    simp only [loosePasses]
    split
    · exact h
    · exact ih (loosePass_induction replace h)

end LooseTokens

/-! ## Arrays -/

/-- The text opens an array that is closed and not of the data namespace.
`before` is the text before it on the same level, latest character first. -/
def OpensArray (before s : List Char) : Prop :=
  ∃ a b, s = a ++ arrayOpen ++ b ∧ (splitClosing 0 b).isSome ∧
    ¬ dataNamespace <:+ before.reverse ++ a

section Opened

variable {before body a b : List Char}

theorem isSome_after?_dataNamespace :
    (after? dataNamespace.reverse before).isSome ↔ dataNamespace <:+ before.reverse := by
  rw [Option.isSome_iff_exists]
  constructor
  · rintro ⟨r, h⟩
    rw [after?_eq_some_iff.1 h]
    exact ⟨r.reverse, by simp⟩
  · rintro ⟨r, h⟩
    refine ⟨r.reverse, after?_eq_some_iff.2 ?_⟩
    rw [← List.reverse_reverse before, ← h, List.reverse_append]

/-- The namespace does not reach over a character that it has not. -/
theorem dataNamespace_suffix_cons (hc : c ∉ dataNamespace) :
    dataNamespace <:+ before ++ c :: a ↔ dataNamespace <:+ a := by
  refine ⟨fun h => ?_, fun h => h.trans ⟨before ++ [c], by simp⟩⟩
  rcases List.suffix_or_suffix_of_suffix h (List.suffix_append before (c :: a)) with h | h
  · rcases List.suffix_cons_iff.1 h with heq | h
    · exact absurd (heq ▸ List.mem_cons_self) hc
    · exact h
  · exact absurd (h.mem List.mem_cons_self) hc

/-- It has no bracket, so behind an opening one it has to stand anew. -/
theorem dataNamespace_suffix_iff :
    dataNamespace <:+ before ++ (arrayOpen ++ a) ↔ dataNamespace <:+ a := by
  have hopen : before ++ (arrayOpen ++ a) = (before ++ "Array".toList) ++ '<' :: a := by
    rw [List.append_assoc]
    rfl
  rw [hopen]
  exact dataNamespace_suffix_cons (by decide)

/-- Two openings do not overlap. -/
theorem arrayOpen_append_eq (h : arrayOpen ++ body = a ++ arrayOpen ++ b) :
    a = [] ∨ ∃ a', a = arrayOpen ++ a' ∧ body = a' ++ arrayOpen ++ b := by
  rw [List.append_assoc] at h
  rcases List.append_eq_append_iff.1 h with ⟨a', rfl, rfl⟩ | ⟨c, hopen, hrest⟩
  · exact .inr ⟨a', rfl, by simp⟩
  · -- what they share starts with the capital that stands at the head only
    cases a with
    | nil => exact .inl rfl
    | cons x a =>
      have htail : "rray<".toList = a ++ c := (List.cons.inj hopen).2
      cases c with
      | nil => exact .inr ⟨[], by simpa using hopen.symm, by simpa using hrest.symm⟩
      | cons y c =>
        have hy : 'A' = y := (List.cons.inj hrest).1
        have hmem : 'A' ∈ "rray<".toList := by rw [htail, hy]; simp
        exact absurd hmem (by decide)

theorem exists_arrayOpen_eq (body : List Char) : ∃ c s, arrayOpen ++ body = c :: s :=
  ⟨_, _, rfl⟩

/-- An opening that is kept as it is. -/
def Kept (before body : List Char) : Prop :=
  dataNamespace <:+ before.reverse ∨ splitClosing 0 body = none

theorem bracketArrays_cons (h : after? arrayOpen (c :: s) = none) :
    bracketArrays before (c :: s) = c :: bracketArrays (c :: before) s := by
  rw [bracketArrays]
  split
  · rfl
  · simp_all

theorem bracketArrays_kept (h : Kept before body) :
    bracketArrays before (arrayOpen ++ body) = arrayOpen ++ bracketArrays [] body := by
  obtain ⟨c, s, hs⟩ := exists_arrayOpen_eq body
  rw [Kept, ← isSome_after?_dataNamespace] at h
  rw [hs, bracketArrays]
  split
  · rename_i hopen
    simp [← hs] at hopen
  · rename_i body' hopen
    rw [← hs, after?_append, Option.some.injEq] at hopen
    subst hopen
    split
    · rfl
    · rename_i hdata
      split
      · rename_i hclosed
        simp [hdata, hclosed] at h
      · rfl

theorem bracketArrays_opened (hdata : ¬ dataNamespace <:+ before.reverse)
    (hclosed : splitClosing 0 body = some (a, b)) :
    bracketArrays before (arrayOpen ++ body) =
      '(' :: bracketArrays [] a ++ ")[]".toList ++ bracketArrays [] b := by
  obtain ⟨c, s, hs⟩ := exists_arrayOpen_eq body
  rw [← isSome_after?_dataNamespace] at hdata
  rw [hs, bracketArrays]
  split
  · rename_i hopen
    simp [← hs] at hopen
  · rename_i body' hopen
    rw [← hs, after?_append, Option.some.injEq] at hopen
    subst hopen
    rw [if_neg hdata]
    split
    · rename_i hclosed'
      rw [hclosed] at hclosed'
      cases hclosed'
      rfl
    · rename_i hclosed'
      rw [hclosed] at hclosed'
      cases hclosed'

/-- What holds of every text holds level by level, from opening to opening. -/
theorem arrays_induction {motive : List Char → List Char → Prop}
    (nil : ∀ before, motive before [])
    (cons : ∀ before c s, after? arrayOpen (c :: s) = none → motive (c :: before) s →
      motive before (c :: s))
    (kept : ∀ before body, Kept before body → motive [] body → motive before (arrayOpen ++ body))
    (opened : ∀ before body a b, ¬ dataNamespace <:+ before.reverse →
      splitClosing 0 body = some (a, b) → motive [] a → motive [] b →
      motive before (arrayOpen ++ body)) (before s : List Char) : motive before s := by
  induction before, s using bracketArrays.induct with
  | case1 before => exact nil before
  | case2 before c s hopen ih => exact cons before c s hopen ih
  | case3 before c s body hopen hdata ih =>
    rw [after?_eq_some_iff.1 hopen]
    exact kept before body (.inl (isSome_after?_dataNamespace.1 hdata)) ih
  | case4 before c s body hopen hdata a b hclosed iha ihb =>
    rw [after?_eq_some_iff.1 hopen]
    rw [isSome_after?_dataNamespace] at hdata
    exact opened before body a b hdata hclosed iha ihb
  | case5 before c s body hopen hdata hclosed ih =>
    rw [after?_eq_some_iff.1 hopen]
    exact kept before body (.inr hclosed) ih

theorem not_opensArray_nil : ¬ OpensArray before [] := by
  rintro ⟨a, b, heq, -⟩
  have hlength := congrArg List.length heq
  have hopen : arrayOpen.length = 6 := by decide
  simp only [List.length_append, List.length_nil] at hlength
  omega

/-- An array is opened at the head of a text or behind it. -/
theorem opensArray_cons_iff : OpensArray before (c :: s) ↔
    ((after? arrayOpen (c :: s)).any (fun body => (splitClosing 0 body).isSome) ∧
      ¬ dataNamespace <:+ before.reverse) ∨ OpensArray (c :: before) s := by
  rw [Option.any_eq_true]
  constructor
  · rintro ⟨a, b, heq, hclosed, hdata⟩
    cases a with
    | nil => exact .inl ⟨⟨b, after?_eq_some_iff.2 heq, hclosed⟩, by simpa using hdata⟩
    | cons d a =>
      obtain ⟨rfl, rfl⟩ := List.cons.inj heq
      exact .inr ⟨a, b, by simp, hclosed, by simpa using hdata⟩
  · rintro (⟨⟨b, hopen, hclosed⟩, hdata⟩ | ⟨a, b, rfl, hclosed, hdata⟩)
    · exact ⟨[], b, after?_eq_some_iff.1 hopen, hclosed, by simpa using hdata⟩
    · exact ⟨c :: a, b, by simp, hclosed, by simpa using hdata⟩

instance decidableOpensArray : (before s : List Char) → Decidable (OpensArray before s)
  | _, [] => isFalse not_opensArray_nil
  | before, c :: s =>
    have := decidableOpensArray (c :: before) s
    decidable_of_iff _ opensArray_cons_iff.symm

/-- An opening that is kept does not hide the arrays behind it. -/
theorem opensArray_of_body (h : OpensArray [] body) : OpensArray before (arrayOpen ++ body) := by
  obtain ⟨a, b, rfl, hclosed, hdata⟩ := h
  refine ⟨arrayOpen ++ a, b, by simp, hclosed, ?_⟩
  rwa [dataNamespace_suffix_iff]

/-- An array of a text whose first opening is kept stands behind it. -/
theorem opensArray_body (h : OpensArray before (arrayOpen ++ body))
    (hkept : Kept before body) : OpensArray [] body := by
  obtain ⟨a, b, heq, hclosed, hdata⟩ := h
  rcases arrayOpen_append_eq heq with rfl | ⟨a, rfl, rfl⟩
  · rw [List.nil_append, List.append_cancel_left_eq] at heq
    subst heq
    rcases hkept with hkept | hkept
    · simp [hkept] at hdata
    · simp [hkept] at hclosed
  · rw [dataNamespace_suffix_iff] at hdata
    exact ⟨a, b, rfl, hclosed, by simpa using hdata⟩

end Opened

theorem rises_bracketArrays {before : List Char} (h : OpensArray before s) :
    Rises previous s (bracketArrays before s) := by
  induction before, s using arrays_induction generalizing previous with
  | nil before => exact absurd h not_opensArray_nil
  | cons before c s hopen ih =>
    rw [bracketArrays_cons hopen]
    rw [opensArray_cons_iff, hopen] at h
    exact .cons (ih (h.resolve_left (by simp)))
  | kept before body hkept ih =>
    rw [bracketArrays_kept hkept]
    exact .append_left arrayOpen (ih (opensArray_body h hkept))
  | opened before body a b hdata hclosed =>
    rw [bracketArrays_opened hdata hclosed]
    -- the bracket in the place of the capital stands higher behind any character
    exact .head (by rw [rank, rank]; split <;> decide)

theorem bracketArrays_eq_self {before : List Char} (h : ¬ OpensArray before s) :
    bracketArrays before s = s := by
  induction before, s using arrays_induction with
  | nil before => rw [bracketArrays]
  | cons before c s hopen ih =>
    rw [bracketArrays_cons hopen, ih fun h' => h (opensArray_cons_iff.2 (.inr h'))]
  | kept before body hkept ih =>
    rw [bracketArrays_kept hkept, ih fun h' => h (opensArray_of_body h')]
  | opened before body a b hdata hclosed =>
    exact absurd ⟨[], body, rfl, by simp [hclosed], by simpa using hdata⟩ h

/-- **Making arrays postfix rewrites the texts that open one.** -/
theorem rewrites_bracketArrays : Rewrites (bracketArrays []) (OpensArray []) where
  rises _ h := rises_bracketArrays h
  settled _ h := bracketArrays_eq_self h

/-! ## No step brings a question mark in -/

/-- A character that no replacement brings in stood in the text. -/
theorem mem_of_mem_replaceEach {find : List Char → Option Hit}
    (hfind : ∀ t hit, find t = some hit → c ∈ hit.replacement → c ∈ t) {covered : Nat}
    (h : c ∈ replaceEach find covered s) : c ∈ s := by
  induction s generalizing covered with
  | nil => simp [replaceEach] at h
  | cons d s ih =>
    cases covered with
    | succ covered => exact List.mem_cons_of_mem d (ih h)
    | zero =>
      rw [replaceEach] at h
      split at h
      · rename_i hit hhit
        rcases List.mem_append.1 h with h | h
        · exact hfind _ hit hhit h
        · exact List.mem_cons_of_mem d (ih h)
      · rcases List.mem_cons.1 h with rfl | h
        · exact List.mem_cons_self
        · exact List.mem_cons_of_mem d (ih h)

theorem nullable_of_qualifyPromises (h : '?' ∈ qualifyPromises s) : '?' ∈ s := by
  have hpromise : '?' ∉ globalPromise := by decide
  have hfind : ∀ t hit, promiseHit? t = some hit → '?' ∈ hit.replacement → '?' ∈ t := by
    intro t hit hhit hmem
    obtain ⟨c, after, rfl, -, hreplacement⟩ := promiseHit?_eq_some hhit
    rw [hreplacement, List.mem_cons, or_iff_left hpromise] at hmem
    exact hmem ▸ List.mem_cons_self
  rw [qualifyPromises] at h
  split at h
  · rename_i rest hrest
    rw [after?_eq_some_iff.1 hrest]
    exact List.mem_append_right _
      (mem_of_mem_replaceEach hfind ((List.mem_append.1 h).resolve_left hpromise))
  · exact mem_of_mem_replaceEach hfind h

theorem nullable_of_replaceLoose (h : '?' ∈ replaceLoose s) : '?' ∈ s := by
  have hunknown : '?' ∉ unknownType := by decide
  refine replaceLoose_induction (motive := fun t => '?' ∈ t → '?' ∈ s) ?_ id h
  intro before token after _ _ _ ht hmem
  refine ht ?_
  rw [List.mem_append, List.mem_append] at hmem ⊢
  exact hmem.imp_right fun hmem => .inr (hmem.resolve_left hunknown)

theorem nullable_of_bracketArrays {before : List Char} (h : '?' ∈ bracketArrays before s) :
    '?' ∈ s := by
  have hopening : '?' ∉ arrayOpen := by decide
  induction before, s using arrays_induction with
  | nil before => simp [bracketArrays] at h
  | cons before c s hopen ih =>
    rw [bracketArrays_cons hopen] at h
    rcases List.mem_cons.1 h with rfl | h
    · exact List.mem_cons_self
    · exact List.mem_cons_of_mem c (ih h)
  | kept before body hkept ih =>
    rw [bracketArrays_kept hkept] at h
    exact List.mem_append_right _ (ih ((List.mem_append.1 h).resolve_left hopening))
  | opened before body a b hdata hclosed iha ihb =>
    rw [bracketArrays_opened hdata hclosed] at h
    rw [(splitClosing_eq_some_iff.1 hclosed).1]
    have hparts : '?' ∈ bracketArrays [] a ∨ '?' ∈ bracketArrays [] b := by simpa using h
    rcases hparts with h | h
    · exact List.mem_append_right _ (List.mem_append_left _ (iha h))
    · exact List.mem_append_right _ (List.mem_append_right _ (List.mem_cons_of_mem _ (ihb h)))

end Ambient.Annotation
