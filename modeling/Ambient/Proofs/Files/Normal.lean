import Mathlib.Data.List.Basic
import Ambient.Files.Path
import Ambient.Text.Search

/-!
# Where the steps of a path lead

Read on its own, without a file system, a path leads down by its names and
back by `..`, which at the root does nothing (`normalForm`). What steps do
does not depend on where they start: they take back some names and bring in
others (`exists_foldl_descend_eq`). To go back as many steps as one has come
leads to the start if all of them were names; each `..` among them takes back
two names too many (`foldl_descend_climb`).

The components of a path are the texts between its slashes
(`of_mem_components`), and an absolute path has its root in front of them
and nowhere else (`exists_components_eq`).
-/

namespace Ambient.Path

open Text

variable {path base : String} {c : Char}
variable {steps own : List Component} {names : List String} {x : Component}

/-! ## Lexical normal form -/

/-- The names down to where a step leads, the last one first. -/
def descend : List String → Component → List String
  | _, .root => []
  | names, .up => names.tail
  | names, .name s => s :: names

/-- The names from the root down to where steps lead: `..` takes back the name
before it. -/
def normalForm (steps : List Component) : List String :=
  (steps.foldl descend []).reverse

/-- **As many steps back.** Each `..` on the way down takes back a name, and is
itself counted as one to take back. -/
theorem foldl_descend_climb (hroot : .root ∉ own) (names : List String) :
    (own ++ own.map fun _ => Component.up).foldl descend names =
      names.drop (2 * own.count .up) := by
  rw [List.map_const']
  induction own generalizing names with
  | nil => rfl
  | cons x own ih =>
    rw [List.mem_cons, not_or] at hroot
    rw [List.length_cons, List.replicate_succ', ← List.append_assoc, List.foldl_append,
      List.cons_append, List.foldl_cons, List.foldl_nil, List.foldl_cons, ih hroot.2, descend,
      List.tail_drop]
    cases x with
    | root => exact absurd rfl hroot.1
    | up => simp [descend, Nat.mul_add]
    | name s => simp [descend]

/-- **Steps do the same wherever they start**: they take back so many names and
bring in others. -/
theorem exists_foldl_descend_eq (hroot : .root ∉ steps) :
    ∃ back new, ∀ names, steps.foldl descend names = new ++ names.drop back := by
  induction steps with
  | nil => exact ⟨0, [], fun names => rfl⟩
  | cons x steps ih =>
    rw [List.mem_cons, not_or] at hroot
    obtain ⟨back, new, h⟩ := ih hroot.2
    cases x with
    | root => exact absurd rfl hroot.1
    | up => exact ⟨back + 1, new, fun names => by simp [h, descend]⟩
    | name s =>
      cases back with
      | zero => exact ⟨0, new ++ [s], fun names => by simp [h, descend]⟩
      | succ back => exact ⟨back, new, fun names => by simp [h, descend]⟩

/-- Steps that start some levels higher lead to the same place only if they go
back to the root from either. -/
theorem foldl_descend_drop_eq_iff (hroot : .root ∉ steps) {n : Nat} :
    steps.foldl descend (names.drop n) = steps.foldl descend names ↔
      n = 0 ∨ steps.foldl descend [] = steps.foldl descend names := by
  obtain ⟨back, new, h⟩ := exists_foldl_descend_eq hroot
  simp only [h, List.drop_drop, List.append_cancel_left_eq, List.drop_nil]
  constructor
  · intro heq
    have hlength := congrArg List.length heq
    simp only [List.length_drop] at hlength
    refine or_iff_not_imp_left.2 fun hn => (List.drop_eq_nil_iff.2 ?_).symm
    omega
  · rintro (rfl | hnil)
    · rw [Nat.zero_add]
    · rw [← hnil]
      have hlength := List.drop_eq_nil_iff.1 hnil.symm
      exact List.drop_eq_nil_iff.2 (by omega)

/-! ## The texts between slashes -/

/-- A step that is not the root can stand between slashes, and is read back
from there. -/
structure Plain (x : Component) : Prop where
  notRoot : x ≠ .root
  noSlash : '/' ∉ x.text.toList
  notIdle : isIdle x.text.toList = false
  notUp : ∀ s, x = .name s → s ≠ ".."

theorem plain_up : Plain .up where
  notRoot := by simp
  noSlash := by decide +kernel
  notIdle := by decide +kernel
  notUp := by simp

/-- A plain step is read back from its text. -/
theorem Plain.read_text (h : Plain x) :
    (if x.text.toList = ['.', '.'] then .up else .name (String.ofList x.text.toList)) = x := by
  cases x with
  | root => exact absurd rfl h.notRoot
  | up => rfl
  | name s =>
    have hne : s.toList ≠ ['.', '.'] := fun hs => h.notUp s rfl (String.toList_inj.1 hs)
    rw [Component.text, if_neg hne, String.ofList_toList]

/-- A component is the root, or stands between the slashes of the path. -/
theorem of_mem_components (h : x ∈ components path) (hroot : x ≠ .root) :
    Plain x ∧ x.text.toList ⊆ path.toList := by
  have hx : x ∈ ((segments path).filter fun s => !isIdle s).map fun s =>
      if s = ['.', '.'] then .up else .name (String.ofList s) := by
    refine (List.mem_append.1 h).resolve_left fun hmem => hroot ?_
    split at hmem
    · exact List.mem_singleton.1 hmem
    · cases hmem
  obtain ⟨segment, hsegment, rfl⟩ := List.mem_map.1 hx
  obtain ⟨hmem, hidle⟩ := List.mem_filter.1 hsegment
  obtain ⟨hslash, hinfix⟩ := of_mem_splitOn hmem
  have hsubset := hinfix.subset
  rw [Bool.not_eq_true'] at hidle
  split
  · rename_i hup
    subst hup
    exact ⟨⟨by simp, hslash, hidle, by simp⟩, hsubset⟩
  · rename_i hup
    have htext : (Component.name (String.ofList segment)).text.toList = segment := by
      simp [Component.text]
    refine ⟨⟨by simp, by rwa [htext], by rwa [htext], ?_⟩, by rwa [htext]⟩
    rintro s hs rfl
    have hname : String.ofList segment = ".." := by simpa using hs
    exact hup (by simpa using congrArg String.toList hname)

/-- The root stands at the head of an absolute path only. -/
theorem exists_components_eq (h : isAbsolute path) :
    ∃ steps, components path = .root :: steps ∧ .root ∉ steps := by
  refine ⟨((segments path).filter fun s => !isIdle s).map fun s =>
    if s = ['.', '.'] then .up else .name (String.ofList s), ?_, ?_⟩
  · rw [components, if_pos h]
    rfl
  · intro hmem
    obtain ⟨segment, -, hsegment⟩ := List.mem_map.1 hmem
    split at hsegment <;> cases hsegment

/-- A slash at the head has an empty text before it. -/
theorem nil_mem_segments_of_isAbsolute (h : isAbsolute path) : [] ∈ segments path := by
  obtain ⟨rest, hrest⟩ := List.head?_eq_some_iff.1 (of_decide_eq_true h)
  rw [segments, hrest, ← List.nil_append ('/' :: rest), List.splitOn_append_cons_self]
  simp

/-- What is seen from an absolute path is absolute. -/
theorem isAbsolute_join_of_isAbsolute (path : String) (h : isAbsolute base) :
    isAbsolute (join base path) := by
  rw [join]
  split
  · assumption
  · have hhead : base.toList.head? = some '/' := by simpa [isAbsolute] using h
    split <;> simp [isAbsolute, hhead]

/-- A joined path has the characters of its parts, and slashes. -/
theorem mem_join (h : c ∈ (join base path).toList) :
    c ∈ base.toList ∨ c ∈ path.toList ∨ c = '/' := by
  rw [join] at h
  split at h
  · exact .inr (.inl h)
  · split at h
    · rw [String.toList_append, List.mem_append] at h
      exact h.imp_right .inl
    · have hparts : c ∈ base.toList ∨ c = '/' ∨ c ∈ path.toList := by simpa using h
      exact hparts.imp_right Or.symm

end Ambient.Path
