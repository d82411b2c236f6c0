import Ambient.Library.Basic
import Ambient.Seen

/-!
# Walking the references of a library

Classes refer to classes by name, and the references may form cycles, meet
again, or lead to names that the library does not describe. A walk follows
them depth first and in order. It enters each class once, at the first
reference that reaches it, and passes over unknown names, so it ends on
every library: each step shortens the list of open references or uses up a
class not seen before.

A reference carries a label; what the labels mean is up to the kind of walk.
-/

namespace Ambient

namespace Library

/-- The names of the library that a walk has not seen yet. -/
def unseen (lib : Library) (seen : List String) : List String :=
  lib.names.filter fun name => name ∉ seen

/-- Seeing one more class leaves fewer unseen. -/
theorem length_unseen_cons_lt {lib : Library} {seen : List String} {name : String}
    (hname : name ∈ lib.names) (hseen : name ∉ seen) :
    (lib.unseen (name :: seen)).length < (lib.unseen seen).length := by
  refine length_filter_lt (fun x hx => ?_) hname (by simpa using hseen) (by simp)
  simp only [List.mem_cons, not_or, decide_eq_true_eq] at hx ⊢
  exact hx.2

variable {ℓ : Type}

/-- The classes that the open references lead to, each with the label of the
reference that reached it first, in the order of discovery. `next` gives
the references of a class that was reached with a label. -/
def walk (lib : Library) (next : ℓ → ClassRecord → List (ℓ × String)) (seen : List String) :
    List (ℓ × String) → List (ℓ × ClassRecord)
  | [] => []
  | (label, name) :: rest =>
    match _h : lib.find? name with
    | none => walk lib next seen rest
    | some c =>
      if name ∈ seen then walk lib next seen rest
      else (label, c) :: walk lib next (name :: seen) (next label c ++ rest)
  termination_by open_ => ((lib.unseen seen).length, open_.length)
  decreasing_by
    · exact Prod.Lex.right _ (by simp)
    · exact Prod.Lex.right _ (by simp)
    · rename_i hseen
      exact Prod.Lex.left _ _ (length_unseen_cons_lt (mem_names_of_find? _h) hseen)

end Library

end Ambient
