import Ambient.Declaration.Doc

/-!
# The type expression of a line

A line loses its first type expression (`FirstTypeExpression`): it opens at the
first brace that opens no inline tag, and ends at the brace found by counting
from there. What stands before and behind it is trimmed and kept with a blank
between (`stripTypeExpression_of_first`), so no inline tag before it is lost and
no character but blanks is. A line without such an expression is kept
(`stripTypeExpression_eq_self`).
-/

namespace Ambient.Doc

open Text

variable {line s before expression after x : List Char} {c : Char} {depth : Nat}

/-- A type expression may open at the head of the text. -/
def OpensType (s : List Char) : Prop :=
  ∃ e, s = '\x7b' :: e ∧ e.head? ≠ some '@'

/-- The parts of a line before, in and behind its first type expression: no
brace further left opens one, and no beginning of the expression closes as many
braces as it opens. -/
structure FirstTypeExpression (line before expression after : List Char) : Prop where
  line_eq : line = before ++ (expression ++ after)
  opens : OpensType (expression ++ after)
  first : ∀ a b, before = a ++ b → b ≠ [] → ¬ OpensType (b ++ (expression ++ after))
  ne_nil : expression ≠ []
  closed : expression.count '\x7b' = expression.count '\x7d'
  shortest : ∀ p, p <+: expression → p ≠ [] → p.count '\x7b' = p.count '\x7d' → p = expression

/-! ## The opening brace -/

theorem opensType_cons_iff : OpensType (c :: s) ↔ c = '\x7b' ∧ s.head? ≠ some '@' := by
  constructor
  · rintro ⟨e, heq, he⟩
    obtain ⟨rfl, rfl⟩ := List.cons.inj heq
    exact ⟨rfl, he⟩
  · rintro ⟨rfl, hs⟩
    exact ⟨s, rfl, hs⟩

theorem splitTypeOpening_eq_some_iff : splitTypeOpening line = some (before, s) ↔
    line = before ++ s ∧ OpensType s ∧
      ∀ a b, before = a ++ b → b ≠ [] → ¬ OpensType (b ++ s) := by
  induction line generalizing before with
  | nil =>
    refine iff_of_false (by simp [splitTypeOpening]) ?_
    rintro ⟨hline, ⟨e, rfl, -⟩, -⟩
    simp at hline
  | cons c line ih =>
    rw [splitTypeOpening]
    split
    · rename_i hbrace
      have hopens : OpensType (c :: line) := opensType_cons_iff.2 hbrace
      constructor
      · intro h
        cases h
        refine ⟨rfl, hopens, ?_⟩
        intro a b hb hne
        exact absurd (List.append_eq_nil_iff.1 hb.symm).2 hne
      · rintro ⟨hline, -, hfirst⟩
        cases before with
        | nil => rw [hline, List.nil_append]
        | cons d before =>
          have hnot := hfirst [] (d :: before) rfl (by simp)
          rw [← hline] at hnot
          exact absurd hopens hnot
    · rename_i hbrace
      have hnot : ¬ OpensType (c :: line) := mt opensType_cons_iff.1 hbrace
      rw [Option.map_eq_some_iff]
      constructor
      · rintro ⟨⟨a, e⟩, hsplit, heq⟩
        cases heq
        obtain ⟨rfl, hopens, hfirst⟩ := ih.1 hsplit
        refine ⟨rfl, hopens, ?_⟩
        intro a' b hb hne
        cases a' with
        | nil =>
          obtain rfl : c :: a = b := hb
          exact hnot
        | cons d a' => exact hfirst a' b (List.cons.inj hb).2 hne
      · rintro ⟨hline, hopens, hfirst⟩
        cases before with
        | nil =>
          rw [List.nil_append] at hline
          rw [hline] at hnot
          exact absurd hopens hnot
        | cons d before =>
          obtain ⟨rfl, rfl⟩ := List.cons.inj hline
          refine ⟨(before, s), ih.2 ⟨rfl, hopens, ?_⟩, rfl⟩
          intro a b hb hne
          exact hfirst (c :: a) b (by rw [hb]; rfl) hne

/-! ## The closing brace -/

/-- The braces that are open after a character. -/
def openAfter (depth : Nat) (c : Char) : Nat :=
  if c = '\x7b' then depth + 1 else if c = '\x7d' then depth - 1 else depth

/-- The text closes `depth + 1` open braces, and no beginning of it does. -/
def Closes (depth : Nat) (s : List Char) : Prop :=
  s.count '\x7d' = s.count '\x7b' + depth + 1 ∧
    ∀ p, p <+: s → p.count '\x7d' = p.count '\x7b' + depth + 1 → p = s

theorem not_closes_nil : ¬ Closes depth [] := by
  rintro ⟨hcount, -⟩
  simp at hcount

/-- A character that is not the closing brace itself moves the count. -/
theorem count_cons_iff (h : ¬ (c = '\x7d' ∧ depth = 0)) (s : List Char) :
    (c :: s).count '\x7d' = (c :: s).count '\x7b' + depth + 1 ↔
      s.count '\x7d' = s.count '\x7b' + openAfter depth c + 1 := by
  by_cases hopen : c = '\x7b'
  · subst hopen
    simp [openAfter]
    omega
  · by_cases hclose : c = '\x7d'
    · subst hclose
      have hdepth : depth ≠ 0 := fun hzero => h ⟨rfl, hzero⟩
      simp [openAfter]
      omega
    · simp [openAfter, hopen, hclose]

theorem closes_cons_iff : Closes depth (c :: s) ↔
    if c = '\x7d' ∧ depth = 0 then s = [] else Closes (openAfter depth c) s := by
  split
  · rename_i hclosing
    obtain ⟨rfl, rfl⟩ := hclosing
    constructor
    · rintro ⟨-, hleast⟩
      have hbrace := hleast ['\x7d'] (by simp) (by decide)
      exact (List.cons.inj hbrace).2.symm
    · rintro rfl
      refine ⟨by decide, ?_⟩
      intro p hp hcount
      rcases List.prefix_cons_iff.1 hp with rfl | ⟨q, rfl, hq⟩
      · simp at hcount
      · rw [List.prefix_nil.1 hq]
  · rename_i hnot
    refine and_congr (count_cons_iff hnot s) ⟨?_, ?_⟩
    · intro hleast p hp hcount
      have hcons := hleast (c :: p) ((List.prefix_cons_inj c).2 hp) ((count_cons_iff hnot p).2 hcount)
      exact (List.cons.inj hcons).2
    · intro hleast p hp hcount
      rcases List.prefix_cons_iff.1 hp with rfl | ⟨q, rfl, hq⟩
      · simp at hcount
      · rw [hleast q hq ((count_cons_iff hnot q).1 hcount)]

/-- **The closing brace is the one found by counting.** -/
theorem afterClosing?_eq_some_iff :
    afterClosing? depth s = some after ↔ ∃ x, s = x ++ after ∧ Closes depth x := by
  induction s generalizing depth with
  | nil =>
    refine iff_of_false (by simp [afterClosing?]) ?_
    rintro ⟨x, hnil, hcloses⟩
    rw [(List.append_eq_nil_iff.1 hnil.symm).1] at hcloses
    exact not_closes_nil hcloses
  | cons c s ih =>
    rw [afterClosing?]
    split
    · rename_i hclosing
      constructor
      · intro h
        cases h
        exact ⟨[c], rfl, closes_cons_iff.2 (by rw [if_pos hclosing])⟩
      · rintro ⟨x, heq, hcloses⟩
        cases x with
        | nil => exact absurd hcloses not_closes_nil
        | cons d x =>
          obtain ⟨rfl, rfl⟩ := List.cons.inj heq
          rw [closes_cons_iff, if_pos hclosing] at hcloses
          rw [hcloses]
          rfl
    · rename_i hnot
      rw [← openAfter, ih]
      constructor
      · rintro ⟨x, rfl, hcloses⟩
        exact ⟨c :: x, rfl, closes_cons_iff.2 (by rwa [if_neg hnot])⟩
      · rintro ⟨x, heq, hcloses⟩
        cases x with
        | nil => exact absurd hcloses not_closes_nil
        | cons d x =>
          obtain ⟨rfl, rfl⟩ := List.cons.inj heq
          rw [closes_cons_iff, if_neg hnot] at hcloses
          exact ⟨x, rfl, hcloses⟩

/-! ## What a line loses -/

/-- What follows the opening brace closes it. -/
theorem closes_zero_iff (x : List Char) : Closes 0 x ↔
    ('\x7b' :: x).count '\x7b' = ('\x7b' :: x).count '\x7d' ∧
      ∀ p, p <+: '\x7b' :: x → p ≠ [] → p.count '\x7b' = p.count '\x7d' → p = '\x7b' :: x := by
  have hcount : ∀ t : List Char, t.count '\x7d' = t.count '\x7b' + 0 + 1 ↔
      ('\x7b' :: t).count '\x7b' = ('\x7b' :: t).count '\x7d' := by
    intro t
    simp
    omega
  refine and_congr (hcount x) ⟨?_, ?_⟩
  · intro hleast p hp hne heven
    rcases List.prefix_cons_iff.1 hp with rfl | ⟨q, rfl, hq⟩
    · exact absurd rfl hne
    · rw [hleast q hq ((hcount q).2 heven)]
  · intro hleast p hp hodd
    have hcons := hleast ('\x7b' :: p) ((List.prefix_cons_inj _).2 hp) (by simp) ((hcount p).1 hodd)
    exact (List.cons.inj hcons).2

/-- **The type expression that the scan finds is the first one.** -/
theorem firstTypeExpression_iff : FirstTypeExpression line before expression after ↔
    ∃ x, expression = '\x7b' :: x ∧ splitTypeOpening line = some (before, '\x7b' :: (x ++ after)) ∧
      Closes 0 x := by
  constructor
  · intro h
    obtain ⟨d, x, rfl⟩ := List.exists_cons_of_ne_nil h.ne_nil
    obtain rfl : d = '\x7b' := (opensType_cons_iff.1 h.opens).1
    exact ⟨x, rfl, splitTypeOpening_eq_some_iff.2 ⟨h.line_eq, h.opens, h.first⟩,
      (closes_zero_iff x).2 ⟨h.closed, h.shortest⟩⟩
  · rintro ⟨x, rfl, hsplit, hcloses⟩
    obtain ⟨hline, hopens, hfirst⟩ := splitTypeOpening_eq_some_iff.1 hsplit
    obtain ⟨hclosed, hshortest⟩ := (closes_zero_iff x).1 hcloses
    exact ⟨hline, hopens, hfirst, by simp, hclosed, hshortest⟩

/-- A line loses its first type expression. -/
theorem stripTypeExpression_of_first (h : FirstTypeExpression line before expression after) :
    stripTypeExpression line = trim before ++ ' ' :: trim after := by
  obtain ⟨x, -, hsplit, hcloses⟩ := firstTypeExpression_iff.1 h
  have hafter : afterClosing? 0 (x ++ after) = some after :=
    afterClosing?_eq_some_iff.2 ⟨x, rfl, hcloses⟩
  simp only [stripTypeExpression, hsplit, List.tail_cons, hafter]

/-- And without one it is kept. -/
theorem stripTypeExpression_eq_self
    (h : ¬ ∃ before expression after, FirstTypeExpression line before expression after) :
    stripTypeExpression line = line := by
  rw [stripTypeExpression]
  split
  · rfl
  · rename_i before s hsplit
    obtain ⟨-, ⟨e, rfl, -⟩, -⟩ := splitTypeOpening_eq_some_iff.1 hsplit
    split
    · rfl
    · rename_i after hafter
      obtain ⟨x, heq, hcloses⟩ := afterClosing?_eq_some_iff.1 hafter
      rw [List.tail_cons] at heq
      rw [heq] at hsplit
      exact absurd ⟨before, '\x7b' :: x, after,
        firstTypeExpression_iff.2 ⟨x, rfl, hsplit, hcloses⟩⟩ h

/-! ## What is kept -/

/-- An inline tag with both its braces. -/
def IsInlineTag (tag : List Char) : Prop :=
  ∃ body, tag = '\x7b' :: '@' :: (body ++ ['\x7d'])

/-- An inline tag before the type expression is kept. -/
theorem FirstTypeExpression.infix_stripTypeExpression {tag : List Char}
    (h : FirstTypeExpression line before expression after) (htag : IsInlineTag tag)
    (hbefore : tag <:+: before) : tag <:+: stripTypeExpression line := by
  obtain ⟨body, rfl⟩ := htag
  have hhead : ∀ c ∈ ('\x7b' :: '@' :: (body ++ ['\x7d'])).head?, isBlank c = false := by
    intro c hc
    cases hc
    decide
  have hlast : ∀ c ∈ ('\x7b' :: '@' :: (body ++ ['\x7d'])).getLast?, isBlank c = false := by
    intro c hc
    have hbrace : ('\x7b' :: '@' :: (body ++ ['\x7d'])).getLast? = some '\x7d' :=
      List.getLast?_concat (l := '\x7b' :: '@' :: body)
    rw [hbrace] at hc
    cases hc
    decide
  rw [stripTypeExpression_of_first h]
  exact (infix_trim hhead hlast hbefore).trans (List.prefix_append _ _).isInfix

/-- No character but blanks is lost before and behind the type expression. -/
theorem FirstTypeExpression.filter_stripTypeExpression
    (h : FirstTypeExpression line before expression after) :
    (stripTypeExpression line).filter (!isBlank ·) = (before ++ after).filter (!isBlank ·) := by
  have hblank : isBlank ' ' = true := by decide
  rw [stripTypeExpression_of_first h, List.filter_append, List.filter_append, List.filter_cons,
    filter_trim, filter_trim]
  simp [hblank]

theorem FirstTypeExpression.count_stripTypeExpression
    (h : FirstTypeExpression line before expression after) (hc : isBlank c = false) :
    (stripTypeExpression line).count c + expression.count c = line.count c := by
  have hkept : (stripTypeExpression line).count c = (before ++ after).count c := by
    have hfilter := congrArg (List.count c) h.filter_stripTypeExpression
    rwa [List.count_filter (by simp [hc]), List.count_filter (by simp [hc])] at hfilter
  rw [hkept, h.line_eq]
  simp only [List.count_append]
  omega

end Ambient.Doc
