/-!
# Finding and replacing in a text

Texts are lists of characters here, so that every rule of this library
about them is an induction. A *hit* is a match at the head of a text;
`replaceEach` replaces the hits from the left, and a hit never overlaps
the one before it.
-/

namespace Ambient.Text

/-- What follows `word` in a text that starts with it. -/
def after? : (word s : List Char) → Option (List Char)
  | [], s => some s
  | _ :: _, [] => none
  | w :: word, c :: s => if w = c then after? word s else none

theorem after?_eq_some_iff {word s r : List Char} : after? word s = some r ↔ s = word ++ r := by
  induction word generalizing s with
  | nil => simp [after?, eq_comm]
  | cons w word ih =>
    cases s with
    | nil => simp [after?]
    | cons c s =>
      by_cases h : w = c
      · simp [after?, h, ih]
      · simp [after?, h, eq_comm]

@[simp] theorem after?_append (word r : List Char) : after? word (word ++ r) = some r :=
  after?_eq_some_iff.2 rfl

/-- Some part of the text is `word`. -/
def contains (word : List Char) : List Char → Bool
  | [] => word.isEmpty
  | c :: s => (after? word (c :: s)).isSome || contains word s

theorem contains_iff {word s : List Char} : contains word s ↔ ∃ a b, s = a ++ word ++ b := by
  induction s with
  | nil =>
    rw [contains, List.isEmpty_iff]
    exact ⟨fun h => ⟨[], [], by simp [h]⟩, fun ⟨a, b, h⟩ => by simp_all⟩
  | cons c s ih =>
    rw [contains, Bool.or_eq_true, ih, Option.isSome_iff_exists]
    constructor
    · rintro (⟨b, h⟩ | ⟨a, b, h⟩)
      · exact ⟨[], b, by simpa using after?_eq_some_iff.1 h⟩
      · exact ⟨c :: a, b, by simp [h]⟩
    · rintro ⟨a, b, h⟩
      cases a with
      | nil => exact .inl ⟨b, after?_eq_some_iff.2 (by simpa using h)⟩
      | cons d a =>
        simp only [List.cons_append, List.cons.injEq] at h
        exact .inr ⟨a, b, h.2⟩

/-! ## Parts and separators -/

/-- A character of a joined text is the separator or stands in one part. -/
theorem mem_of_mem_intercalate {segments : List (List Char)} {c d : Char}
    (h : c ∈ [d].intercalate segments) : c = d ∨ ∃ segment ∈ segments, c ∈ segment := by
  induction segments with
  | nil => simp [List.intercalate] at h
  | cons segment segments ih =>
    cases segments with
    | nil => exact .inr ⟨segment, by simp, by simpa [List.intercalate] using h⟩
    | cons next segments =>
      have hparts : c ∈ segment ∨ c = d ∨ c ∈ [d].intercalate (next :: segments) := by
        simpa [List.intercalate] using h
      rcases hparts with h | h | h
      · exact .inr ⟨segment, List.mem_cons_self, h⟩
      · exact .inl h
      · rcases ih h with h | ⟨segment', hmem, h⟩
        · exact .inl h
        · exact .inr ⟨segment', List.mem_cons_of_mem _ hmem, h⟩

/-- A text without the character is passed over on the way to it. -/
theorem takeWhile_ne_append {a : List Char} {c : Char} (h : c ∉ a) (b : List Char) :
    (a ++ b).takeWhile (· ≠ c) = a ++ b.takeWhile (· ≠ c) := by
  refine List.takeWhile_append_of_pos fun d hd => ?_
  rw [decide_eq_true_iff]
  rintro rfl
  exact h hd

/-- What stands before the first such character. -/
theorem takeWhile_ne_append_cons {a : List Char} {c : Char} (h : c ∉ a) (b : List Char) :
    (a ++ c :: b).takeWhile (· ≠ c) = a := by
  rw [takeWhile_ne_append h, List.takeWhile_cons_of_neg (by simp), List.append_nil]

/-- A part has no separator, and stands in the text. -/
theorem of_mem_splitOn {s segment : List Char} {c : Char} (h : segment ∈ s.splitOn c) :
    c ∉ segment ∧ segment <:+: s := by
  induction hn : s.length using Nat.strongRecOn generalizing s with
  | ind n ih =>
    subst hn
    by_cases hc : c ∈ s
    · -- the first separator ends the first part
      obtain ⟨first, rest, rfl, hfirst⟩ := List.eq_append_cons_of_mem hc
      rw [List.splitOn_append_cons_self, List.splitOn_eq_singleton hfirst, List.mem_append,
        List.mem_singleton] at h
      rcases h with rfl | h
      · exact ⟨hfirst, (List.prefix_append _ _).isInfix⟩
      · obtain ⟨hseparator, hinfix⟩ := ih rest.length (by simp; omega) h rfl
        have hrest : rest <:+ first ++ c :: rest := ⟨first ++ [c], by simp⟩
        exact ⟨hseparator, hinfix.trans hrest.isInfix⟩
    · rw [List.splitOn_eq_singleton hc, List.mem_singleton] at h
      subst h
      exact ⟨hc, List.infix_rfl⟩

/-! ## Replacing -/

/-- A match at the head of a text: what takes its place, and how many
characters it covers. -/
structure Hit where
  replacement : List Char
  size : Nat

/-- The text with every hit replaced. The first argument counts the
characters at the head that belong to a hit already replaced. -/
def replaceEach (find : List Char → Option Hit) : Nat → List Char → List Char
  | _, [] => []
  | covered + 1, _ :: s => replaceEach find covered s
  | 0, c :: s =>
    match find (c :: s) with
    | some hit => hit.replacement ++ replaceEach find (hit.size - 1) s
    | none => c :: replaceEach find 0 s

/-- Every `word` of the text replaced by `substitute`, from the left. -/
def replaceWord (word substitute : List Char) (s : List Char) : List Char :=
  replaceEach (fun t => (after? word t).map fun _ => ⟨substitute, word.length⟩) 0 s

variable {find : List Char → Option Hit}

/-- After a hit the text goes on behind it. -/
theorem replaceEach_covered (n : Nat) (s : List Char) :
    replaceEach find n s = replaceEach find 0 (s.drop n) := by
  induction s generalizing n with
  | nil => simp [replaceEach]
  | cons c s ih =>
    cases n with
    | zero => rfl
    | succ n => rw [replaceEach, ih, List.drop_succ_cons]

/-- Nothing to find, nothing to change. -/
theorem replaceEach_eq_self {s : List Char} (h : ∀ t, t <:+ s → find t = none) :
    replaceEach find 0 s = s := by
  induction s with
  | nil => rfl
  | cons c s ih =>
    rw [replaceEach, h _ (List.suffix_refl _)]
    simp only [ih fun t ht => h t (ht.trans (List.suffix_cons c s))]

/-- What every replacement preserves, each with the text before it, is
preserved by all of them. -/
theorem replaceEach_induction {motive : List Char → Prop}
    (replace : ∀ before c s hit, find (c :: s) = some hit → motive (before ++ c :: s) →
      motive (before ++ (hit.replacement ++ s.drop (hit.size - 1))))
    {before s : List Char} {covered : Nat} (h : motive (before ++ s.drop covered)) :
    motive (before ++ replaceEach find covered s) := by
  induction s generalizing before covered with
  | nil => simpa [replaceEach] using h
  | cons c s ih =>
    cases covered with
    | succ covered => exact ih h
    | zero =>
      rw [replaceEach]
      cases hfind : find (c :: s) with
      | some hit =>
        have hreplaced := replace before c s hit hfind h
        rw [← List.append_assoc] at hreplaced
        simpa using ih hreplaced
      | none =>
        have hkept : motive (before ++ [c] ++ s.drop 0) := by simpa using h
        simpa using ih hkept

end Ambient.Text
