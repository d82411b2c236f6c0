/-!
# What is left after something is seen

The recursions over a library end because each step leaves fewer names
that have not been seen. The count of what is left is the length of a
filtered list, and a stricter filter that drops a member makes it shorter.
-/

namespace Ambient

theorem length_filter_le {α : Type} {p q : α → Bool} (hpq : ∀ x, p x → q x) (xs : List α) :
    (xs.filter p).length ≤ (xs.filter q).length := by
  rw [← List.countP_eq_length_filter, ← List.countP_eq_length_filter]
  exact List.countP_mono_left fun x _ => hpq x

/-- A stricter filter leaves less if it drops a member that the other keeps. -/
theorem length_filter_lt {α : Type} {p q : α → Bool} (hpq : ∀ x, p x → q x) {xs : List α} {a : α}
    (hmem : a ∈ xs) (hq : q a) (hp : ¬ p a) : (xs.filter p).length < (xs.filter q).length := by
  induction xs with
  | nil => cases hmem
  | cons x xs ih =>
    rcases List.mem_cons.1 hmem with rfl | hmem
    · rw [List.filter_cons_of_neg hp, List.filter_cons_of_pos hq, List.length_cons]
      exact Nat.lt_succ_of_le (length_filter_le hpq xs)
    · have ih := ih hmem
      by_cases hx : p x
      · rw [List.filter_cons_of_pos hx, List.filter_cons_of_pos (hpq x hx)]
        simpa using ih
      · rw [List.filter_cons_of_neg hx]
        by_cases hx' : q x
        · rw [List.filter_cons_of_pos hx', List.length_cons]
          omega
        · rwa [List.filter_cons_of_neg hx']

end Ambient
