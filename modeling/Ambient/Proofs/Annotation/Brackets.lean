import Mathlib.Data.List.Infix
import Ambient.Annotation.Notation

/-!
# Counting brackets

A text leaves some brackets open when it is read with some that are open before
it (`Leaves`). The bracket that closes a level is the first behind a text that
leaves none of that level open (`splitClosing_eq_some_iff`), so what is opened in
a balanced text is closed in it (`Balanced.isSome_splitClosing`).
-/

namespace Ambient.Annotation

variable {s a b r x y : List Char} {c : Char} {d e f g : Nat}

/-- The brackets that are open after a character. -/
def depthAfter (depth : Nat) (c : Char) : Nat :=
  if c = '<' then depth + 1 else if c = '>' then depth - 1 else depth

/-- Read with `e` brackets open, the text never closes more than are open, and
in the end it leaves `f` open. -/
def Leaves (e f : Nat) (s : List Char) : Prop :=
  (∀ p ∈ s.inits, p.count '>' ≤ p.count '<' + e) ∧ s.count '>' + f = s.count '<' + e

instance : Decidable (Leaves e f s) := inferInstanceAs (Decidable (_ ∧ _))

/-- The text closes what it opens and nothing else. -/
def Balanced (s : List Char) : Prop := Leaves 0 0 s

instance : Decidable (Balanced s) := inferInstanceAs (Decidable (Leaves 0 0 s))

theorem leaves_nil : Leaves e f [] ↔ e = f := by
  simp only [Leaves, List.inits, List.mem_singleton, List.count_nil, forall_eq]
  omega

/-- How a character moves the two counts that are compared. -/
theorem count_cons_add (c : Char) (e : Nat) (s : List Char) (h : c = '>' → e ≠ 0) :
    ((c :: s).count '>' ≤ (c :: s).count '<' + e ↔ s.count '>' ≤ s.count '<' + depthAfter e c) ∧
      ((c :: s).count '>' + f = (c :: s).count '<' + e ↔
        s.count '>' + f = s.count '<' + depthAfter e c) := by
  by_cases hopen : c = '<'
  · subst hopen
    simp only [depthAfter, List.count_cons, if_true]
    constructor <;> simp <;> omega
  · by_cases hclose : c = '>'
    · subst hclose
      have := h rfl
      simp only [depthAfter, List.count_cons]
      constructor <;> simp <;> omega
    · simp [depthAfter, hopen, hclose]

/-- One character opens a bracket, closes one that is open, or does neither. -/
theorem leaves_cons : Leaves e f (c :: s) ↔ (c = '>' → e ≠ 0) ∧ Leaves (depthAfter e c) f s := by
  have hfirst : Leaves e f (c :: s) → c = '>' → e ≠ 0 := by
    rintro ⟨hinits, -⟩ rfl rfl
    simpa using hinits ['>'] (by simp)
  constructor
  · intro h
    have hadd := count_cons_add (f := f) c e
    refine ⟨hfirst h, fun p hp => ?_, ((hadd s (hfirst h)).2).1 h.2⟩
    have hcp : c :: p ∈ (c :: s).inits := by simpa using hp
    exact ((hadd p (hfirst h)).1).1 (h.1 _ hcp)
  · rintro ⟨hc, hinits, htotal⟩
    have hadd := count_cons_add (f := f) c e
    refine ⟨fun p hp => ?_, ((hadd s hc).2).2 htotal⟩
    rcases List.prefix_cons_iff.1 ((List.mem_inits _ _).1 hp) with rfl | ⟨q, rfl, hq⟩
    · simp
    · exact ((hadd q hc).1).2 (hinits q ((List.mem_inits _ _).2 hq))

theorem leaves_append : Leaves e f (x ++ y) ↔ ∃ g, Leaves e g x ∧ Leaves g f y := by
  induction x generalizing e with
  | nil => simp [leaves_nil]
  | cons c x ih => simp only [List.cons_append, leaves_cons, ih, and_assoc, exists_and_left]

theorem Leaves.succ (h : Leaves e f s) : Leaves (e + 1) (f + 1) s :=
  ⟨fun p hp => (h.1 p hp).trans (Nat.le_succ _), congrArg Nat.succ h.2⟩

theorem splitClosing_cons : splitClosing d (c :: s) =
    if c = '>' ∧ d = 0 then some ([], s)
    else (splitClosing (depthAfter d c) s).map fun p => (c :: p.1, p.2) := rfl

/-- **The closing bracket is the one found by counting.** -/
theorem splitClosing_eq_some_iff :
    splitClosing d s = some (a, b) ↔ s = a ++ '>' :: b ∧ Leaves d 0 a := by
  induction s generalizing d a with
  | nil => simp [splitClosing]
  | cons c s ih =>
    rw [splitClosing_cons]
    split
    · rename_i hclosing
      obtain ⟨rfl, rfl⟩ := hclosing
      constructor
      · intro h
        cases h
        exact ⟨rfl, leaves_nil.2 rfl⟩
      · rintro ⟨heq, hleaves⟩
        cases a with
        | nil =>
          obtain ⟨-, rfl⟩ := List.cons.inj heq
          rfl
        | cons c' a =>
          -- the first bracket would close one that is not open
          obtain ⟨rfl, -⟩ := List.cons.inj heq
          exact absurd rfl ((leaves_cons.1 hleaves).1 rfl)
    · rename_i hopen
      rw [Option.map_eq_some_iff]
      constructor
      · rintro ⟨⟨a', b'⟩, h, heq⟩
        cases heq
        obtain ⟨rfl, hleaves⟩ := ih.1 h
        exact ⟨rfl, leaves_cons.2 ⟨fun hc hd => hopen ⟨hc, hd⟩, hleaves⟩⟩
      · rintro ⟨heq, hleaves⟩
        cases a with
        | nil =>
          obtain ⟨rfl, -⟩ := List.cons.inj heq
          exact absurd ⟨rfl, leaves_nil.1 hleaves⟩ hopen
        | cons c' a =>
          obtain ⟨rfl, rfl⟩ := List.cons.inj heq
          exact ⟨(a, b), ih.2 ⟨rfl, (leaves_cons.1 hleaves).2⟩, rfl⟩

theorem isSome_splitClosing_cons : (splitClosing d (c :: s)).isSome ↔
    (c = '>' ∧ d = 0) ∨ (splitClosing (depthAfter d c) s).isSome ∧ (c = '>' → d ≠ 0) := by
  rw [splitClosing_cons]
  split
  · simp_all
  · simp_all

/-- A text that closes only what it opens hides no closing bracket. -/
theorem isSome_splitClosing_append (h : Leaves e f a) :
    (splitClosing (d + e) (a ++ r)).isSome ↔ (splitClosing (d + f) r).isSome := by
  induction a generalizing e with
  | nil => rw [List.nil_append, leaves_nil.1 h]
  | cons c a ih =>
    obtain ⟨hfirst, hrest⟩ := leaves_cons.1 h
    have hdepth : depthAfter (d + e) c = d + depthAfter e c := by
      simp only [depthAfter]
      split_ifs with _ hc
      · omega
      · have := hfirst hc
        omega
      · rfl
    rw [List.cons_append, isSome_splitClosing_cons, hdepth, ih hrest]
    constructor
    · rintro (⟨hc, hzero⟩ | ⟨hclosed, -⟩)
      · have := hfirst hc
        omega
      · exact hclosed
    · intro hclosed
      refine .inr ⟨hclosed, fun hc => ?_⟩
      have := hfirst hc
      omega

/-- When more brackets are closed than were opened, the level is closed. -/
theorem isSome_splitClosing_of_leaves (h : Leaves (d + e + 1) f s) (hf : f ≤ e) :
    (splitClosing d s).isSome := by
  induction s generalizing d with
  | nil =>
    have := leaves_nil.1 h
    omega
  | cons c s ih =>
    rw [isSome_splitClosing_cons]
    by_cases hclosing : c = '>' ∧ d = 0
    · exact .inl hclosing
    · refine .inr ⟨?_, fun hc hd => hclosing ⟨hc, hd⟩⟩
      have hdepth : depthAfter (d + e + 1) c = depthAfter d c + e + 1 := by
        simp only [depthAfter]
        split_ifs with _ hc
        · omega
        · have : d ≠ 0 := fun hd => hclosing ⟨hc, hd⟩
          omega
        · rfl
      exact ih (hdepth ▸ (leaves_cons.1 h).2)

/-- What is opened in a balanced text is closed in it. -/
theorem Balanced.isSome_splitClosing (h : Balanced (x ++ '<' :: y)) :
    (splitClosing 0 y).isSome := by
  obtain ⟨g, -, hrest⟩ := leaves_append.1 h
  have hrest : Leaves (g + 1) 0 y := (leaves_cons.1 hrest).2
  exact isSome_splitClosing_of_leaves (by simpa using hrest) (Nat.zero_le g)

end Ambient.Annotation
