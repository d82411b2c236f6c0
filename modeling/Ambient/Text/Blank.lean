/-!
# Blank characters

A character is blank when Unicode gives it the property White_Space.
Documentation lines are trimmed by this rule, so a line of no-break
spaces counts as empty. The class holds every character that the core
library calls whitespace (`isBlank_of_isWhitespace`).
-/

namespace Ambient.Text

/-- The characters with the property White_Space. -/
def isBlank (c : Char) : Bool :=
  let n := c.toNat
  (9 ≤ n && n ≤ 13) || n == 0x20 || n == 0x85 || n == 0xA0 || n == 0x1680 ||
    (0x2000 ≤ n && n ≤ 0x200A) || n == 0x2028 || n == 0x2029 || n == 0x202F ||
    n == 0x205F || n == 0x3000

/-- A text without the blanks at its two ends. -/
def trim (s : List Char) : List Char :=
  ((s.dropWhile isBlank).reverse.dropWhile isBlank).reverse

/-- A text that holds no character but blanks. -/
def isBlankText (s : List Char) : Bool :=
  s.all isBlank

theorem isBlank_of_isWhitespace {c : Char} (h : c.isWhitespace) : isBlank c := by
  simp only [Char.isWhitespace, Bool.or_eq_true, decide_eq_true_eq] at h
  rcases h with ((h | h) | h) | h <;> subst h <;> decide

@[simp] theorem trim_nil : trim [] = [] := rfl

/-- What is trimmed off is blank. -/
theorem exists_eq_append_trim (s : List Char) :
    ∃ a b, s = a ++ (trim s ++ b) ∧ isBlankText a ∧ isBlankText b := by
  let rest := (s.dropWhile isBlank).reverse
  refine ⟨s.takeWhile isBlank, (rest.takeWhile isBlank).reverse, ?_, List.all_takeWhile, ?_⟩
  · rw [trim, ← List.reverse_append, List.takeWhile_append_dropWhile, List.reverse_reverse,
      List.takeWhile_append_dropWhile]
  · rw [isBlankText, List.all_reverse]
    exact List.all_takeWhile

theorem trim_isInfix (s : List Char) : trim s <:+: s := by
  obtain ⟨a, b, h, -, -⟩ := exists_eq_append_trim s
  exact ⟨a, b, by rw [List.append_assoc]; exact h.symm⟩

/-- No character but blanks is trimmed off. -/
theorem filter_trim (s : List Char) :
    (trim s).filter (!isBlank ·) = s.filter (!isBlank ·) := by
  obtain ⟨a, b, h, ha, hb⟩ := exists_eq_append_trim s
  have hnone : ∀ t, isBlankText t → t.filter (!isBlank ·) = [] := by
    intro t ht
    rw [List.filter_eq_nil_iff]
    intro c hc
    simp [List.all_eq_true.1 ht c hc]
  calc (trim s).filter (!isBlank ·)
      = (a ++ (trim s ++ b)).filter (!isBlank ·) := by
        rw [List.filter_append, List.filter_append, hnone a ha, hnone b hb, List.nil_append,
          List.append_nil]
    _ = s.filter (!isBlank ·) := by rw [← h]

/-- A part that does not start with a blank lies behind those at the head. -/
theorem infix_dropWhile {part s : List Char} (hhead : ∀ c ∈ part.head?, isBlank c = false)
    (h : part <:+: s) : part <:+: s.dropWhile isBlank := by
  induction s with
  | nil => exact h
  | cons c s ih =>
    rw [List.dropWhile_cons]
    split
    · rename_i hc
      rcases List.infix_cons_iff.1 h with hprefix | h
      · cases part with
        | nil => exact List.nil_infix
        | cons d part =>
          obtain rfl : d = c := (List.cons_prefix_cons.1 hprefix).1
          rw [hhead d rfl] at hc
          cases hc
      · exact ih h
    · exact h

/-- A part that neither starts nor ends with a blank is kept. -/
theorem infix_trim {part s : List Char} (hhead : ∀ c ∈ part.head?, isBlank c = false)
    (hlast : ∀ c ∈ part.getLast?, isBlank c = false) (h : part <:+: s) : part <:+: trim s := by
  have hleft : part.reverse <:+: (s.dropWhile isBlank).reverse :=
    List.reverse_infix.2 (infix_dropWhile hhead h)
  have hright := infix_dropWhile (by simpa using hlast) hleft
  rw [← List.reverse_infix, List.reverse_reverse] at hright
  exact hright

end Ambient.Text
