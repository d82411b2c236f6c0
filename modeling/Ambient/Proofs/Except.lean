import Mathlib.Data.List.Forall2

/-!
# Steps that can fail

A run of steps goes on as long as they succeed. It succeeds when all of them do
(`bind_eq_ok_iff`, `mapM_eq_ok_iff`), and it fails as the first step that does
(`foldlM_eq_error_iff`).
-/

namespace Ambient

/-- Of two steps that can fail, both succeed. -/
theorem bind_eq_ok_iff {ε α β : Type} {x : Except ε α} {f : α → Except ε β} {b : β} :
    x >>= f = .ok b ↔ ∃ a, x = .ok a ∧ f a = .ok b := by
  cases x with
  | error e => simp [bind, Except.bind]
  | ok a => simp [bind, Except.bind]

@[simp] theorem mapError_ok {ε ε' α : Type} (f : ε → ε') (a : α) :
    (Except.ok a).mapError f = .ok a := rfl

@[simp] theorem mapError_error {ε ε' α : Type} (f : ε → ε') (e : ε) :
    (Except.error e : Except ε α).mapError f = .error (f e) := rfl

theorem map_eq_ok_iff {ε α β : Type} {x : Except ε α} {f : α → β} {b : β} :
    x.map f = .ok b ↔ ∃ a, x = .ok a ∧ f a = b := by
  cases x with
  | error e => simp [Except.map]
  | ok a => simp [Except.map]

theorem mapError_eq_ok_iff {ε ε' α : Type} {x : Except ε α} {f : ε → ε'} {a : α} :
    x.mapError f = .ok a ↔ x = .ok a := by
  cases x <;> simp

theorem mapError_eq_error_iff {ε ε' α : Type} {x : Except ε α} {f : ε → ε'} {e' : ε'} :
    x.mapError f = .error e' ↔ ∃ e, x = .error e ∧ f e = e' := by
  cases x <;> simp

/-- A step that fails is the end of a run, and what comes after it is not
reached. -/
theorem foldlM_eq_error_iff {ε α β : Type} {f : β → α → Except ε β} {b : β} {l : List α} {e : ε} :
    l.foldlM f b = .error e ↔ ∃ before a after b', l = before ++ a :: after ∧
      before.foldlM f b = .ok b' ∧ f b' a = .error e := by
  induction l generalizing b with
  | nil => simp [pure, Except.pure]
  | cons a l ih =>
    rw [List.foldlM_cons]
    constructor
    · intro h
      cases hstep : f b a with
      | error e' =>
        rw [hstep] at h
        cases h
        exact ⟨[], a, l, b, rfl, rfl, hstep⟩
      | ok b₁ =>
        rw [hstep] at h
        obtain ⟨before, a', after, b', rfl, hbefore, hlast⟩ := ih.1 h
        refine ⟨a :: before, a', after, b', rfl, ?_, hlast⟩
        rw [List.foldlM_cons, hstep]
        exact hbefore
    · rintro ⟨before, a', after, b', hl, hbefore, hlast⟩
      cases before with
      | nil =>
        cases hl
        cases hbefore
        rw [hlast]
        rfl
      | cons a₁ before =>
        cases hl
        rw [List.foldlM_cons] at hbefore
        obtain ⟨b₁, hstep, hbefore⟩ := bind_eq_ok_iff.1 hbefore
        rw [hstep]
        exact ih.2 ⟨before, a', after, b', rfl, hbefore, hlast⟩

/-- Every element can be taken, and the results are in the order of the elements. -/
theorem mapM_eq_ok_iff {ε α β : Type} {f : α → Except ε β} {as : List α} {bs : List β} :
    as.mapM f = .ok bs ↔ List.Forall₂ (fun a b => f a = .ok b) as bs := by
  induction as generalizing bs with
  | nil =>
    constructor
    · intro h
      cases h
      exact .nil
    · intro h
      cases h
      rfl
  | cons a as ih =>
    rw [List.mapM_cons, bind_eq_ok_iff]
    constructor
    · rintro ⟨b, ha, h⟩
      obtain ⟨bs, has, h⟩ := bind_eq_ok_iff.1 h
      cases h
      exact .cons ha (ih.1 has)
    · intro h
      cases h with
      | cons ha has => exact ⟨_, ha, bind_eq_ok_iff.2 ⟨_, ih.2 has, rfl⟩⟩

end Ambient
