import Mathlib.Logic.Function.Iterate
import Ambient.Proofs.Annotation.Standing

/-!
# How the loose tokens are replaced

A pass replaces loose tokens that stand alone, and its replacements are of
letters, so it brings no token in: every pass that is made takes one of the
tokens of the text away (`tokenCount_loosePass_lt`), and no more passes are made
than the text has tokens (`exists_iterate_loosePasses`). What stands on either
side of a token that a later pass replaces stood there before the first one,
since a replacement continues a name. So all passes together change nothing but
tokens that stand alone in the text itself (`loosened_replaceLoose`).
-/

namespace Ambient.Annotation

open Text

variable {s t s' before token after word : List Char} {c f : Char} {previous : Option Char}

/-- The number of places where a word stands in a text. -/
def occurrences (word s : List Char) : Nat :=
  standing (fun _ => true) word none s

/-- The number of places where a loose token stands in a text, whatever stands
around it. -/
def tokenCount (s : List Char) : Nat :=
  looseTokens.foldr (fun token n => occurrences token s + n) 0

/-- The second text is the first with some of its loose tokens replaced, each of
which stands alone in the first. `previous` is the character before the first. -/
inductive Loosened : Option Char → List Char → List Char → Prop
  | nil {previous : Option Char} : Loosened previous [] []
  | kept {previous : Option Char} {c : Char} {s t : List Char} (h : Loosened (some c) s t) :
      Loosened previous (c :: s) (c :: t)
  | replaced {previous : Option Char} {token s t : List Char} (hmem : token ∈ looseTokens)
      (hbefore : ∀ c ∈ previous, continuesLoose c = false)
      (hafter : ∀ c ∈ s.head?, continuesLoose c = false)
      (h : Loosened token.getLast? s t) : Loosened previous (token ++ s) (unknownType ++ t)

/-! ## Counting -/

theorem tokenCount_eq (s : List Char) :
    tokenCount s = occurrences ['v', 'a', 'r'] s + occurrences ['*'] s := by
  simp [tokenCount, looseTokens]

/-- What stands before the text does not matter. -/
theorem standing_eq_occurrences (word s : List Char) (previous : Option Char) :
    standing (fun _ => true) word previous s = occurrences word s :=
  standing_congr_previous (by simp)

/-- A character that is part of a word only at its end parts what is counted. -/
theorem occurrences_append_cons (hc : c ∉ word.dropLast) (a s : List Char) :
    occurrences word (a ++ c :: s) = occurrences word (a ++ [c]) + occurrences word s := by
  rw [occurrences, standing_append_cons hc, standing_eq_occurrences, standing_eq_occurrences]

theorem occurrences_append_of_notMem_head (hf : word.head? = some f) (ht : f ∉ t)
    (s : List Char) : occurrences word (t ++ s) = occurrences word s := by
  rw [occurrences, standing_append_of_notMem_head hf ht, standing_eq_occurrences]

theorem occurrences_word_append (hf : word.head? = some f) (htail : f ∉ word.tail)
    (s : List Char) : occurrences word (word ++ s) = occurrences word s + 1 := by
  rw [occurrences, standing_word_append hf htail, standing_eq_occurrences]
  simp [Nat.add_comm]

/-- A word stands nowhere but where its first character does. -/
theorem standing_le_count (free : Char → Bool) (previous : Option Char) (f : Char)
    (word s : List Char) : standing free (f :: word) previous s ≤ s.count f := by
  induction s generalizing previous with
  | nil => exact Nat.zero_le _
  | cons c s ih =>
    have hrest := ih (some c)
    rw [standing, List.count_cons]
    split
    · rename_i hhead
      obtain rfl : f = c := (List.cons_prefix_cons.1 hhead.2).1
      simp only [beq_self_eq_true, if_true]
      omega
    · omega

/-- Every token has a mark. -/
theorem tokenCount_le_looseMarks (s : List Char) : tokenCount s ≤ looseMarks s := by
  have hmarks : looseMarks s = s.count 'v' + s.count '*' := by
    induction s with
    | nil => rfl
    | cons c s ih =>
      rw [looseMarks] at ih ⊢
      simp only [List.countP_cons, List.count_cons, ih]
      by_cases hv : c = 'v'
      · subst hv
        simp
        omega
      · simp [hv]
        omega
  have hvar : occurrences ['v', 'a', 'r'] s ≤ s.count 'v' := standing_le_count _ _ _ _ _
  have hstar : occurrences ['*'] s ≤ s.count '*' := standing_le_count _ _ _ _ _
  rw [tokenCount_eq, hmarks]
  omega

/-- **Replacing a token that stands alone takes one away** and brings none
in. -/
theorem tokenCount_replace (hmem : token ∈ looseTokens)
    (hbefore : ∀ c ∈ before.getLast?, continuesLoose c = false) :
    tokenCount (before ++ (token ++ after)) = tokenCount (before ++ (unknownType ++ after)) + 1 := by
  have hhead : tokenCount (token ++ after) = tokenCount (unknownType ++ after) + 1 := by
    have hvar : ∀ t, 'v' ∉ t → occurrences ['v', 'a', 'r'] (t ++ after) =
        occurrences ['v', 'a', 'r'] after :=
      fun t ht => occurrences_append_of_notMem_head rfl ht after
    have hstar : ∀ t, '*' ∉ t → occurrences ['*'] (t ++ after) = occurrences ['*'] after :=
      fun t ht => occurrences_append_of_notMem_head rfl ht after
    rw [tokenCount_eq, tokenCount_eq, hvar unknownType (by decide), hstar unknownType (by decide)]
    rcases List.mem_cons.1 hmem with rfl | hmem
    · rw [occurrences_word_append rfl (by decide), hstar _ (by decide)]
      omega
    · obtain rfl := List.mem_singleton.1 hmem
      rw [occurrences_word_append rfl (by decide), hvar _ (by decide)]
      omega
  rcases List.eq_nil_or_concat before with rfl | ⟨a, c, rfl⟩
  · exact hhead
  · -- the character before the token belongs to none
    have hc : continuesLoose c = false := hbefore c (by simp)
    have hletters : c ∉ ['v', 'a', 'r'].dropLast := by
      intro hletter
      have hall : ['v', 'a', 'r'].dropLast.all continuesLoose := by decide
      rw [List.all_eq_true.1 hall c hletter] at hc
      cases hc
    have happend : ∀ x, tokenCount (a.concat c ++ x) = tokenCount (a ++ [c]) + tokenCount x := by
      intro x
      have hvar := occurrences_append_cons hletters a x
      have hstar : occurrences ['*'] (a ++ c :: x) =
          occurrences ['*'] (a ++ [c]) + occurrences ['*'] x := occurrences_append_cons (by simp) a x
      have hsplit : a.concat c ++ x = a ++ c :: x := by simp
      rw [hsplit, tokenCount_eq, tokenCount_eq, tokenCount_eq]
      omega
    rw [happend, happend, hhead]
    omega

theorem tokenCount_ne_zero (h : HasLooseToken s) : tokenCount s ≠ 0 := by
  obtain ⟨before, token, after, rfl, hmem, hbefore, -⟩ := h
  rw [List.append_assoc, tokenCount_replace hmem hbefore]
  omega

/-! ## Passes -/

/-- **A pass takes a token away.** -/
theorem tokenCount_loosePass_lt (h : HasLooseToken s) :
    tokenCount (loosePass s) < tokenCount s := by
  have hpass : loosePass s = s ∨ tokenCount (loosePass s) < tokenCount s := by
    refine loosePass_induction (motive := fun t => t = s ∨ tokenCount t < tokenCount s) ?_ (.inl rfl)
    intro before token after hmem hbefore _ hkept
    have hone : tokenCount (before ++ (token ++ after)) =
        tokenCount (before ++ (unknownType ++ after)) + 1 := tokenCount_replace hmem hbefore
    right
    rcases hkept with hkept | hkept
    · rw [← hkept]
      omega
    · omega
  exact hpass.resolve_left (rewrites_loosePass.ne_self_iff.2 h)

/-- **There are no more passes than tokens.** With a pass for every token the
passes go on exactly while a token stands alone. -/
theorem exists_iterate_loosePasses {limit : Nat} (hlimit : tokenCount s ≤ limit) :
    ∃ passes ≤ tokenCount s, loosePasses limit s = loosePass^[passes] s ∧
      (∀ n < passes, HasLooseToken (loosePass^[n] s)) ∧
      ¬ HasLooseToken (loosePass^[passes] s) := by
  induction limit generalizing s with
  | zero =>
    refine ⟨0, Nat.zero_le _, rfl, by simp, fun h => ?_⟩
    have hsome : tokenCount s ≠ 0 := tokenCount_ne_zero h
    omega
  | succ limit ih =>
    by_cases h : HasLooseToken s
    · have hlt := tokenCount_loosePass_lt h
      have hne : ¬ loosePass s = s := rewrites_loosePass.ne_self_iff.2 h
      obtain ⟨passes, hle, heq, hbusy, hdone⟩ := ih (Nat.le_of_lt_succ (hlt.trans_le hlimit))
      refine ⟨passes + 1, by omega, ?_, ?_, hdone⟩
      · simp only [loosePasses]
        rw [if_neg hne, heq, Function.iterate_succ_apply]
      · intro n hn
        cases n with
        | zero => exact h
        | succ n =>
          rw [Function.iterate_succ_apply]
          exact hbusy n (by omega)
    · refine ⟨0, Nat.zero_le _, ?_, by simp, h⟩
      simp [loosePasses, rewrites_loosePass.settled s h]

/-! ## What is replaced -/

namespace Loosened

theorem refl (previous : Option Char) (s : List Char) : Loosened previous s s := by
  induction s generalizing previous with
  | nil => exact .nil
  | cons c s ih => exact .kept (ih _)

/-- A replacement starts with a letter, so what does not start with one is
kept. -/
theorem head?_eq (h : Loosened previous s t) (ht : ∀ c ∈ t.head?, continuesLoose c = false) :
    s.head? = t.head? := by
  cases h with
  | nil => rfl
  | kept _ => rfl
  | replaced _ _ _ _ =>
    have hu : continuesLoose 'u' = false := ht 'u' rfl
    exact absurd hu (by decide)

/-- Without the first letter of a replacement a text is kept. -/
theorem exists_eq_append (h : Loosened previous s (word ++ t)) (hword : 'u' ∉ word) :
    ∃ s', s = word ++ s' ∧ Loosened (word.getLast?.or previous) s' t := by
  induction word generalizing previous s with
  | nil => exact ⟨s, rfl, h⟩
  | cons c word ih =>
    rw [List.mem_cons, not_or] at hword
    generalize htext : c :: word ++ t = text at h
    cases h with
    | nil => cases htext
    | kept h =>
      obtain ⟨rfl, rfl⟩ := List.cons.inj htext
      obtain ⟨s', rfl, hs'⟩ := ih h hword.2
      exact ⟨s', rfl, by simpa [List.getLast?_cons, Option.or_some] using hs'⟩
    | replaced _ _ _ _ => exact absurd (List.cons.inj htext).1.symm hword.1

/-- **One more token may be replaced.** The token of the second text is one of
the first, and stands alone there too: beside a replacement it would not. -/
theorem replace (hs : Loosened previous s (before ++ (token ++ after)))
    (hmem : token ∈ looseTokens)
    (hbefore : ∀ c ∈ before.getLast?.or previous, continuesLoose c = false)
    (hafter : ∀ c ∈ after.head?, continuesLoose c = false) :
    Loosened previous s (before ++ (unknownType ++ after)) := by
  have htokens : ∀ token ∈ looseTokens, 'u' ∉ token ∧ token ≠ [] ∧
      token.head?.all (· ∉ unknownType) := by decide
  obtain ⟨hu, hne, hhead⟩ := htokens token hmem
  generalize htext : before ++ (token ++ after) = text at hs
  induction hs generalizing before with
  | nil =>
    simp only [List.append_eq_nil_iff] at htext
    exact absurd htext.2.1 hne
  | @kept previous c s t hs ih =>
    cases before with
    | nil =>
      have hkept : Loosened previous (c :: s) (token ++ after) := by
        have hs' : Loosened previous (c :: s) (c :: t) := .kept hs
        rwa [← htext] at hs'
      obtain ⟨s', heq, hs'⟩ := hkept.exists_eq_append hu
      have hlast := List.getLast?_eq_getLast_of_ne_nil hne
      rw [hlast, Option.some_or, ← hlast] at hs'
      rw [heq]
      exact .replaced hmem hbefore (hs'.head?_eq hafter ▸ hafter) hs'
    | cons d before =>
      obtain ⟨rfl, htail⟩ := List.cons.inj htext
      refine .kept (ih ?_ htail)
      simpa [List.getLast?_cons, Option.or_some] using hbefore
  | @replaced previous token' s t hmem' hbefore' hafter' hs ih =>
    -- the last letter of a replacement continues a name
    have hend : ∀ u, before = unknownType ++ u → u ≠ [] := by
      rintro u rfl rfl
      have hlast : (unknownType ++ []).getLast? = some 'n' := by decide
      have hn : continuesLoose 'n' = false := hbefore 'n' (by rw [hlast]; rfl)
      exact absurd hn (by decide)
    rcases List.append_eq_append_iff.1 htext with ⟨u, hunknown, hrest⟩ | ⟨u, rfl, hrest⟩
    · -- the token would start inside the replacement
      cases u with
      | nil => exact absurd rfl (hend [] (by simpa using hunknown.symm))
      | cons d u =>
        obtain ⟨e, w, rfl⟩ := List.exists_cons_of_ne_nil hne
        obtain rfl : e = d := (List.cons.inj hrest).1
        have hnot : e ∉ unknownType := of_decide_eq_true hhead
        have hinside : e ∈ unknownType := by
          rw [hunknown]
          exact List.mem_append_right _ List.mem_cons_self
        exact absurd hinside hnot
    · have hlast : ∀ c ∈ u.getLast?.or token'.getLast?, continuesLoose c = false := by
        obtain ⟨u, d, rfl⟩ := (List.eq_nil_or_concat u).resolve_left (hend u rfl)
        intro c hc
        exact hbefore c (by simpa using hc)
      rw [List.append_assoc]
      exact .replaced hmem' hbefore' hafter' (ih hlast hrest.symm)

end Loosened

/-- **All passes replace tokens of the text itself** that stand alone there. -/
theorem loosened_replaceLoose (s : List Char) : Loosened none s (replaceLoose s) := by
  refine replaceLoose_induction (motive := Loosened none s) ?_ (.refl none s)
  intro before token after hmem hbefore hafter hs
  exact hs.replace hmem (by simpa using hbefore) hafter

/-- **How the loose tokens are replaced.** There are at most as many passes as
the text has tokens, whatever stands around these: they go on exactly while a
token stands alone, and end with a text in which none does. This text is the
given one with some of the tokens that stand alone in it replaced, and it is the
same exactly if none does. -/
theorem replaceLoose_settles (s : List Char) :
    (∃ passes ≤ tokenCount s, replaceLoose s = loosePass^[passes] s ∧
      ∀ n < passes, HasLooseToken (loosePass^[n] s)) ∧
    ¬ HasLooseToken (replaceLoose s) ∧
    Loosened none s (replaceLoose s) ∧
    (replaceLoose s = s ↔ ¬ HasLooseToken s) := by
  obtain ⟨passes, hle, heq, hbusy, hdone⟩ :=
    exists_iterate_loosePasses (tokenCount_le_looseMarks s)
  refine ⟨⟨passes, hle, heq, hbusy⟩, ?_, loosened_replaceLoose s,
    rewrites_replaceLoose.eq_self_iff⟩
  rw [replaceLoose, heq]
  exact hdone

end Ambient.Annotation
