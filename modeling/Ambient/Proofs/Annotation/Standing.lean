import Ambient.Proofs.Annotation.Arrays

/-!
# How often a word stands in a text

A word is counted where it stands behind nothing, or behind a character that
leaves it free (`standing`). Text in which the word cannot begin does not
count (`standing_append_of_notMem_head`), and a character that can only end
the word parts what is counted before it from what is counted after it
(`standing_append_cons`). So the notation steps behind the promises keep the
number of a word of letters and an opening bracket: a loose token is bounded
by characters that part, and so is what an array encloses
(`Stays.standing_replaceLoose`, `Stays.standing_bracketArrays`).
-/

namespace Ambient.Annotation

open Text

variable {free : Char → Bool} {word s t a b : List Char} {c f : Char}
variable {previous previous' : Option Char}

/-- The number of places where a word stands in a text behind nothing or
behind a character that leaves it free. `previous` is the character before
the text. -/
def standing (free : Char → Bool) (word : List Char) : Option Char → List Char → Nat
  | _, [] => 0
  | previous, c :: s =>
    (if previous.all free ∧ word <+: c :: s then 1 else 0) + standing free word (some c) s

/-- Of the character before the text it matters only whether it leaves the
word free. -/
theorem standing_congr_previous (h : previous.all free = previous'.all free) :
    standing free word previous s = standing free word previous' s := by
  cases s with
  | nil => rfl
  | cons c s => rw [standing, standing, h]

/-- Before the same character more is counted when more is behind it, unless the
word itself begins there in one text only. -/
theorem standing_cons_eq_add {n : Nat} (h : word <+: c :: t ↔ word <+: c :: s)
    (htail : standing free word (some c) t = standing free word (some c) s + n) :
    standing free word previous (c :: t) = standing free word previous (c :: s) + n := by
  simp only [standing, h, htail, Nat.add_assoc]

/-- The word is counted when it stands somewhere. -/
theorem standing_ne_zero_iff (hword : word ≠ []) :
    standing free word previous s ≠ 0 ↔
      ∃ before after, s = before ++ word ++ after ∧
        (before.getLast?.or previous).all free := by
  induction s generalizing previous with
  | nil =>
    refine iff_of_false (by simp [standing]) ?_
    rintro ⟨before, after, h, -⟩
    simp [hword] at h
  | cons c s ih =>
    have htail : standing free word (some c) s ≠ 0 ↔
        ∃ before after, s = before ++ word ++ after ∧
          ((c :: before).getLast?.or previous).all free := by
      rw [ih]
      simp [List.getLast?_cons, Option.or_some]
    constructor
    · intro h
      by_cases hhead : previous.all free ∧ word <+: c :: s
      · obtain ⟨hfree, after, hafter⟩ := hhead
        exact ⟨[], after, hafter.symm, hfree⟩
      · rw [standing, if_neg hhead, Nat.zero_add, htail] at h
        obtain ⟨before, after, rfl, hfree⟩ := h
        exact ⟨c :: before, after, rfl, hfree⟩
    · rintro ⟨before, after, h, hfree⟩
      rw [standing]
      cases before with
      | nil =>
        rw [if_pos ⟨hfree, after, h.symm⟩]
        omega
      | cons d before =>
        obtain ⟨rfl, hs⟩ := List.cons.inj h
        have := htail.2 ⟨before, after, hs, hfree⟩
        omega

/-! ## Where a word cannot begin -/

theorem standing_cons_of_ne (hf : word.head? = some f) (hc : c ≠ f) :
    standing free word previous (c :: s) = standing free word (some c) s := by
  have hhead : ¬ word <+: c :: s := by
    rintro ⟨r, hr⟩
    obtain ⟨w, rfl⟩ := List.head?_eq_some_iff.1 hf
    exact hc (List.cons.inj hr).1.symm
  rw [standing, if_neg fun h => hhead h.2, Nat.zero_add]

/-- Text without the first character of the word does not count, but its last
character stands before the rest. -/
theorem standing_append_of_notMem_head (hf : word.head? = some f) (ha : f ∉ a) :
    standing free word previous (a ++ s) = standing free word (a.getLast?.or previous) s := by
  induction a generalizing previous with
  | nil => rfl
  | cons c a ih =>
    rw [List.mem_cons, not_or] at ha
    rw [List.cons_append, standing_cons_of_ne hf (fun h => ha.1 h.symm), ih ha.2]
    simp [List.getLast?_cons, Option.or_some]

/-- A word that begins nowhere inside itself is counted once where it stands
free. -/
theorem standing_word_append (hf : word.head? = some f) (htail : f ∉ word.tail) :
    standing free word previous (word ++ s) =
      (if previous.all free then 1 else 0) + standing free word word.getLast? s := by
  obtain ⟨w, rfl⟩ := List.head?_eq_some_iff.1 hf
  have hhead : f :: w <+: f :: (w ++ s) := ⟨s, rfl⟩
  have hrest : standing free (f :: w) (some f) (w ++ s) =
      standing free (f :: w) (w.getLast?.or (some f)) s :=
    standing_append_of_notMem_head hf htail
  simp [standing, hhead, hrest, List.getLast?_cons, Option.or_some]

/-! ## Characters that part a text -/

/-- A word does not reach over a character that it has not. -/
theorem prefix_append_cons_iff (hc : c ∉ word) : word <+: a ++ c :: s ↔ word <+: a := by
  refine ⟨fun h => ?_, fun h => h.trans (List.prefix_append _ _)⟩
  rcases List.prefix_or_prefix_of_prefix h (List.prefix_append a (c :: s)) with h' | ⟨r, rfl⟩
  · exact h'
  · rw [List.prefix_append_right_inj, List.prefix_cons_iff] at h
    rcases h with rfl | ⟨r, rfl, -⟩
    · exact ⟨[], by simp⟩
    · simp at hc

/-- And it ends with a character that it only has at its end. -/
theorem prefix_append_cons_iff_of_dropLast (hc : c ∉ word.dropLast) :
    word <+: a ++ c :: s ↔ word <+: a ++ [c] := by
  have happend : a ++ c :: s = a ++ [c] ++ s := by simp
  rw [happend]
  refine ⟨fun h => ?_, fun h => h.trans (List.prefix_append _ _)⟩
  rcases List.prefix_or_prefix_of_prefix h (List.prefix_append (a ++ [c]) s) with h' | ⟨r, rfl⟩
  · exact h'
  · cases r with
    | nil => rw [List.append_nil]
    | cons d r =>
      rw [List.append_assoc, List.singleton_append, List.dropLast_append_cons] at hc
      simp at hc

theorem standing_append_cons_of_notMem (hword : word ≠ []) (hc : c ∉ word) :
    standing free word previous (a ++ c :: s) =
      standing free word previous a + standing free word (some c) s := by
  induction a generalizing previous with
  | nil =>
    obtain ⟨f, w, rfl⟩ := List.exists_cons_of_ne_nil hword
    rw [List.mem_cons, not_or] at hc
    rw [List.nil_append, standing_cons_of_ne (f := f) rfl hc.1, standing, Nat.zero_add]
  | cons d a ih =>
    exact standing_cons_eq_add (prefix_append_cons_iff (a := d :: a) hc) ih

theorem standing_append_cons (hc : c ∉ word.dropLast) :
    standing free word previous (a ++ c :: s) =
      standing free word previous (a ++ [c]) + standing free word (some c) s := by
  induction a generalizing previous with
  | nil =>
    have hhead := prefix_append_cons_iff_of_dropLast (a := []) (s := s) hc
    rw [List.nil_append] at hhead
    simp only [List.nil_append, standing, hhead, Nat.add_zero]
  | cons d a ih =>
    exact standing_cons_eq_add (prefix_append_cons_iff_of_dropLast (a := d :: a) hc) ih

/-! ## What the steps behind the promises keep -/

/-- What a word needs to stay where it stands: letters and dots but for its last
character, nothing that an array brings in or takes away, and a start that no
replacement has. The brackets that an array gets leave it as free as those it
had. -/
structure Stays (free : Char → Bool) (word : List Char) : Prop where
  letters : ∀ c ∈ word.dropLast, continuesLoose c = true
  noArray : 'A' ∉ word
  noParens : '(' ∉ word ∧ ')' ∉ word
  noClosing : '>' ∉ word
  first : ∃ f, word.head? = some f ∧ continuesLoose f = true ∧
    f ∉ unknownType ∧ (∀ token ∈ looseTokens, f ∉ token) ∧ f ∉ arrayOpen
  brackets : free '<' = free '(' ∧ free '>' = free ']'

namespace Stays

theorem ne_nil (h : Stays free word) : word ≠ [] := by
  obtain ⟨f, hf, -⟩ := h.first
  rintro rfl
  cases hf

theorem notMem_dropLast (h : Stays free word) (hc : continuesLoose c = false) :
    c ∉ word.dropLast := by
  intro hmem
  rw [h.letters c hmem] at hc
  cases hc

/-- Loose tokens part the text on both sides. -/
theorem standing_replaceLoose (h : Stays free word) (s : List Char) :
    standing free word none (replaceLoose s) = standing free word none s := by
  obtain ⟨f, hf, hletter, hunknown, htokens, -⟩ := h.first
  refine replaceLoose_induction
    (motive := fun t => standing free word none t = standing free word none s) ?_ rfl
  intro before token after hmem hbefore hafter hkept
  rw [← hkept]
  -- neither the token nor its type begins the word, and what follows is the same
  have hbehind : ∀ p, standing free word p (unknownType ++ after) =
      standing free word p (token ++ after) := by
    intro p
    cases after with
    | nil =>
      rw [standing_append_of_notMem_head hf hunknown,
        standing_append_of_notMem_head hf (htokens token hmem)]
      rfl
    | cons d after =>
      have hd : f ≠ d := by
        rintro rfl
        rw [hafter f rfl] at hletter
        cases hletter
      have hword : ∀ x, f ∉ x →
          standing free word p (x ++ d :: after) = standing free word (some d) after := by
        intro x hx
        have happend : x ++ d :: after = x ++ [d] ++ after := by simp
        rw [happend, standing_append_of_notMem_head hf (by simp [hx, hd])]
        simp
      rw [hword _ hunknown, hword _ (htokens token hmem)]
  rcases List.eq_nil_or_concat before with rfl | ⟨before, c, rfl⟩
  · exact hbehind none
  · have hc : c ∉ word.dropLast := h.notMem_dropLast (hbefore c (by simp))
    have happend : ∀ x, before.concat c ++ x = before ++ c :: x := by simp
    rw [happend, happend, standing_append_cons hc, hbehind, ← standing_append_cons hc]

end Stays

theorem eq_nil_of_prefix_arrayOpen {p body : List Char} (hp : 'A' ∉ p)
    (h : p <+: arrayOpen ++ body) : p = [] := by
  cases p with
  | nil => rfl
  | cons d p =>
    have hd : d = 'A' := (List.cons_prefix_cons.1 h).1
    exact absurd (hd ▸ List.mem_cons_self) hp

/-- What stands before the first array stays at the head of the text. -/
theorem prefix_bracketArrays {p before : List Char} (hp : 'A' ∉ p) (h : p <+: s) :
    p <+: bracketArrays before s := by
  induction before, s using arrays_induction generalizing p with
  | nil before => rwa [bracketArrays]
  | cons before c s hopen ih =>
    rw [bracketArrays_cons hopen]
    rcases List.prefix_cons_iff.1 h with rfl | ⟨q, rfl, hq⟩
    · exact List.nil_prefix
    · exact List.prefix_cons_iff.2 (.inr ⟨q, rfl, ih (fun hmem => hp (by simp [hmem])) hq⟩)
  | kept before body hkept ih | opened before body a b hdata hclosed =>
    rw [eq_nil_of_prefix_arrayOpen hp h]
    exact List.nil_prefix

/-- Arrays part the text at their brackets, and change nothing of the word. -/
theorem Stays.standing_bracketArrays (h : Stays free word) (before s : List Char) :
    standing free word previous (bracketArrays before s) = standing free word previous s := by
  obtain ⟨f, hf, hletter, -, -, harray⟩ := h.first
  have hforeign : ∀ c ∈ ['(', ')', '[', ']'], f ≠ c := by
    rintro c hc rfl
    have hall : ['(', ')', '[', ']'].all fun c => !continuesLoose c := by decide
    have hno := List.all_eq_true.1 hall f hc
    rw [hletter] at hno
    cases hno
  -- behind an opening the text goes on as behind a bracket
  have hopening : ∀ p x, standing free word p (arrayOpen ++ x) =
      standing free word (some '<') x := by
    intro p x
    rw [standing_append_of_notMem_head hf harray]
    rfl
  induction before, s using arrays_induction generalizing previous with
  | nil before => rw [bracketArrays]
  | cons before c s hopen ih =>
    rw [bracketArrays_cons hopen]
    refine standing_cons_eq_add (n := 0) ⟨fun hp => ?_, fun hp => ?_⟩ ih
    · rw [← bracketArrays_cons hopen] at hp
      exact prefix_of_prefix_bracketArrays h.noParens.1 hp
    · rw [← bracketArrays_cons hopen]
      exact prefix_bracketArrays h.noArray hp
  | kept before body hkept ih =>
    rw [bracketArrays_kept hkept, hopening, hopening, ih]
  | opened before body a b hdata hclosed iha ihb =>
    have hbrackets : f ∉ "[]".toList := fun hmem =>
      hforeign f (List.mem_cons_of_mem _ (List.mem_cons_of_mem _ hmem)) rfl
    have hbehind : standing free word (some ')') ("[]".toList ++ bracketArrays [] b) =
        standing free word (some ']') b := by
      rw [standing_append_of_notMem_head hf hbrackets]
      exact ihb
    have hparen : standing free word (some '(') a = standing free word (some '<') a :=
      standing_congr_previous (by simp [h.brackets.1])
    have hbracket : standing free word (some ']') b = standing free word (some '>') b :=
      standing_congr_previous (by simp [h.brackets.2])
    calc standing free word previous (bracketArrays before (arrayOpen ++ body))
        = standing free word previous
            ('(' :: (bracketArrays [] a ++ ')' :: ("[]".toList ++ bracketArrays [] b))) := by
          rw [bracketArrays_opened hdata hclosed]
          simp
      _ = standing free word (some '(') a + standing free word (some ']') b := by
          rw [standing_cons_of_ne hf (hforeign '(' (by simp)).symm,
            standing_append_cons_of_notMem h.ne_nil h.noParens.2, iha, hbehind]
      _ = standing free word (some '<') a + standing free word (some '>') b := by
          rw [hparen, hbracket]
      _ = standing free word previous (arrayOpen ++ body) := by
          rw [hopening, (splitClosing_eq_some_iff.1 hclosed).1,
            standing_append_cons_of_notMem h.ne_nil h.noClosing]

end Ambient.Annotation
