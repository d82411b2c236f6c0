import Ambient.Proofs.Annotation.Notation

/-!
# Which arrays become postfix

Arrays are made postfix level by level, from the outside in, and each level
sees only its own text. The result can be read off the positions of the
whole text all the same: an array of the text (`ArrayAt`) opens where
`Array<` stands without the data namespace before it, and closes at the
bracket found by counting. Its opening becomes a parenthesis, its closing
bracket becomes `)[]`, and every other character stays (`pieceAt`). No array
is left behind, so a second run changes nothing
(`bracketArrays_eq_postfixArrays`).
-/

namespace Ambient.Annotation

open Text

variable {before s a b r x y : List Char} {c : Char} {d e f g i j k : Nat}

/-! ## The arrays of a text -/

/-- `Array<` stands at position `i` without the data namespace before it, and
its bracket is closed at position `j`. -/
def ArrayAt (s : List Char) (i j : Nat) : Prop :=
  arrayOpen <+: s.drop i ∧ ¬ dataNamespace <:+ s.take i ∧ i + arrayOpen.length ≤ j ∧
    s[j]? = some '>' ∧ Balanced ((s.take j).drop (i + arrayOpen.length))

instance : Decidable (ArrayAt s i j) := inferInstanceAs (Decidable (_ ∧ _))

/-- An array is opened at the position. -/
def OpensAt (s : List Char) (i : Nat) : Prop := ∃ j < s.length, ArrayAt s i j

instance : Decidable (OpensAt s i) := inferInstanceAs (Decidable (∃ j < _, _))

/-- What stands in the place of the character at position `k`: a parenthesis
for the first character of an opening and nothing for the others of it, the
postfix brackets for a closing bracket, and else the character itself. -/
def pieceAt (s : List Char) (k : Nat) : List Char :=
  if OpensAt s k then ['(']
  else if ∃ i < k, k < i + arrayOpen.length ∧ OpensAt s i then []
  else if ∃ i < k, ArrayAt s i k then ")[]".toList
  else s[k]?.toList

/-- The text with all its arrays made postfix at once. -/
def postfixArrays (s : List Char) : List Char :=
  (List.range s.length).flatMap (pieceAt s)

theorem length_arrayOpen : arrayOpen.length = 6 := rfl

/-- An array cuts the text into what stands before it, what it holds and what
follows it. -/
theorem arrayAt_iff : ArrayAt s i j ↔ ∃ x body a b, s = x ++ (arrayOpen ++ body) ∧ x.length = i ∧
    ¬ dataNamespace <:+ x ∧ splitClosing 0 body = some (a, b) ∧ j = i + 6 + a.length := by
  constructor
  · rintro ⟨⟨body, hbody⟩, hdata, hle, hj, hbalanced⟩
    rw [length_arrayOpen] at hle hbalanced
    have hi : i ≤ s.length := by
      have := (List.getElem?_eq_some_iff.1 hj).1
      omega
    have hs : s = s.take i ++ (arrayOpen ++ body) := by rw [hbody, List.take_append_drop]
    have hlength : (s.take i).length = i := List.length_take_of_le hi
    have hbody' : body = s.drop (i + 6) := by
      rw [← List.drop_drop, ← hbody]
      exact (List.drop_left' length_arrayOpen).symm
    refine ⟨s.take i, body, (s.take j).drop (i + 6), s.drop (j + 1), hs, hlength, hdata, ?_, ?_⟩
    · refine splitClosing_eq_some_iff.2 ⟨?_, hbalanced⟩
      obtain ⟨hjlt, hget⟩ := List.getElem?_eq_some_iff.1 hj
      rw [hbody', List.drop_take, ← hget, ← List.drop_eq_getElem_cons hjlt]
      have hsplit := List.take_append_drop (j - (i + 6)) (s.drop (i + 6))
      rw [List.drop_drop, Nat.add_sub_cancel' hle] at hsplit
      exact hsplit.symm
    · have := (List.getElem?_eq_some_iff.1 hj).1
      rw [List.length_drop, List.length_take]
      omega
  · rintro ⟨x, body, a, b, rfl, rfl, hdata, hclosed, rfl⟩
    obtain ⟨rfl, hbalanced⟩ := splitClosing_eq_some_iff.1 hclosed
    have hlength : (x ++ arrayOpen ++ a).length = x.length + 6 + a.length := by
      simp [length_arrayOpen, Nat.add_assoc]
    have hs : x ++ (arrayOpen ++ (a ++ '>' :: b)) = x ++ arrayOpen ++ a ++ '>' :: b := by simp
    refine ⟨?_, by simpa using hdata, by rw [length_arrayOpen]; omega, ?_, ?_⟩
    · rw [List.drop_left]
      exact List.prefix_append _ _
    · rw [hs, ← hlength, List.getElem?_append_right (Nat.le_refl _)]
      simp
    · rw [hs, List.take_left' hlength, length_arrayOpen, List.append_assoc, ← List.append_assoc,
        List.drop_left' (by simp [length_arrayOpen])]
      exact hbalanced

/-- A position opens at most one array. -/
theorem ArrayAt.closing_unique (h : ArrayAt s i j) (h' : ArrayAt s i k) : j = k := by
  obtain ⟨x, body, a, b, rfl, hx, -, hclosed, rfl⟩ := arrayAt_iff.1 h
  obtain ⟨x', body', a', b', heq, hx', -, hclosed', rfl⟩ := arrayAt_iff.1 h'
  obtain ⟨-, hrest⟩ := List.append_inj heq (hx.trans hx'.symm)
  rw [List.append_cancel_left hrest, hclosed'] at hclosed
  cases hclosed
  rfl

theorem ArrayAt.opensAt (h : ArrayAt s i j) : OpensAt s i :=
  ⟨j, (List.getElem?_eq_some_iff.1 h.2.2.2.1).1, h⟩

/-! Positions within an opening. -/

theorem getElem?_opening (h : arrayOpen <+: s.drop i) (hi : i ≤ k) (hk : k < i + 6) :
    s[k]? = arrayOpen[k - i]? := by
  obtain ⟨t, ht⟩ := h
  have hlt : k - i < arrayOpen.length := by
    rw [length_arrayOpen]
    omega
  have hget : (arrayOpen ++ t)[k - i]? = arrayOpen[k - i]? := List.getElem?_append_left hlt
  rw [← hget, ht, List.getElem?_drop, Nat.add_sub_cancel' hi]

/-- Only its first character can open an array. -/
theorem not_opensAt_inside (h : arrayOpen <+: s.drop i) (hi : i < k) (hk : k < i + 6) :
    ¬ OpensAt s k := by
  rintro ⟨j, -, hopen, -⟩
  have hcapital : ∀ m < 6, 0 < m → arrayOpen[m]? ≠ arrayOpen[0]? := by decide
  refine hcapital (k - i) (by omega) (by omega) ?_
  rw [← getElem?_opening h (Nat.le_of_lt hi) hk, getElem?_opening hopen (Nat.le_refl k) (by omega),
    Nat.sub_self]

/-- And none of them closes one. -/
theorem not_closing_inside (h : arrayOpen <+: s.drop i) (hi : i ≤ k) (hk : k < i + 6) :
    s[k]? ≠ some '>' := by
  have hbracket : ∀ m < 6, arrayOpen[m]? ≠ some '>' := by decide
  rw [getElem?_opening h hi hk]
  exact hbracket (k - i) (by omega)

/-- An array that opens in a balanced part of the text closes in it. -/
theorem ArrayAt.within {pre rest : List Char} (h : ArrayAt s i j)
    (hparts : s = pre ++ (a ++ '>' :: rest)) (hbalanced : Balanced a) (hi : pre.length ≤ i)
    (hle : i ≤ pre.length + a.length) :
    i + 6 ≤ pre.length + a.length ∧ j < pre.length + a.length := by
  have hbracket : s[pre.length + a.length]? = some '>' := by
    rw [hparts, ← List.append_assoc, ← List.length_append,
      List.getElem?_append_right (Nat.le_refl _)]
    simp
  have hend : i + 6 ≤ pre.length + a.length := by
    by_contra hlt
    exact not_closing_inside h.1 hle (by omega) hbracket
  obtain ⟨x, body, u, v, hs, rfl, -, hclosed, rfl⟩ := arrayAt_iff.1 h
  -- the opening stands within the balanced part
  have hx : pre <+: x := by
    have hpre : pre <+: s := hparts ▸ List.prefix_append _ _
    have hbefore : x <+: s := hs ▸ List.prefix_append _ _
    exact List.prefix_of_prefix_length_le hpre hbefore hi
  obtain ⟨x, rfl⟩ := hx
  have hopening : pre ++ x ++ arrayOpen <+: pre ++ a := by
    have hthrough : pre ++ x ++ arrayOpen <+: s := ⟨body, by rw [hs, List.append_assoc]⟩
    have hpart : pre ++ a <+: s := ⟨'>' :: rest, by rw [hparts, List.append_assoc]⟩
    refine List.prefix_of_prefix_length_le hthrough hpart ?_
    simp only [List.length_append, length_arrayOpen] at hend ⊢
    omega
  obtain ⟨y, hy⟩ := hopening
  have ha : a = x ++ arrayOpen ++ y := by
    rw [List.append_assoc, List.append_assoc] at hy
    rw [List.append_assoc, ← List.append_cancel_left hy]
  subst ha
  -- so its bracket is closed there, and a bracket is closed once
  have hsplit : x ++ arrayOpen ++ y = (x ++ "Array".toList) ++ '<' :: y := by
    rw [List.append_assoc, List.append_assoc]
    rfl
  have hsome := (hsplit ▸ hbalanced).isSome_splitClosing
  obtain ⟨⟨u', v'⟩, hclosed'⟩ := Option.isSome_iff_exists.1 hsome
  obtain ⟨rfl, hleaves⟩ := splitClosing_eq_some_iff.1 hclosed'
  have hbody : body = u' ++ '>' :: (v' ++ '>' :: rest) := by
    rw [hs] at hparts
    simpa using hparts
  rw [splitClosing_eq_some_iff.2 ⟨hbody, hleaves⟩] at hclosed
  cases hclosed
  simp only [List.length_append, List.length_cons, length_arrayOpen] at hend ⊢
  exact ⟨by omega, by omega⟩

/-! ## Level by level -/

/-- A level of a text: `s` between two parts of it. What follows starts with a
bracket that closes the level; what the level opens is closed in it or not at
all; no array that was opened before reaches into it or is closed in it; and
`before` tells as much about the data namespace as the whole text before. -/
structure Level (text pre before s post : List Char) : Prop where
  parts : text = pre ++ (s ++ post)
  ends : ∀ c ∈ post.head?, c = '>'
  closed : ∀ x y, s = x ++ '<' :: y → (splitClosing 0 (y ++ post)).isSome →
    (splitClosing 0 y).isSome
  apart : ∀ i < pre.length, ∀ j, ArrayAt text i j →
    i + 6 ≤ pre.length ∧ (j < pre.length ∨ pre.length + s.length ≤ j)
  data : ∀ a, dataNamespace <:+ pre ++ a ↔ dataNamespace <:+ before.reverse ++ a

namespace Level

variable {text pre post body : List Char}

theorem whole (s : List Char) : Level s [] [] s [] where
  parts := by simp
  ends := by simp
  closed := by simp
  apart := by simp
  data := by simp

/-- A position of the level where the level itself opens and closes nothing
keeps its character. -/
theorem pieceAt_eq (h : Level text pre before s post) (hk : k < s.length)
    (hlocal : ∀ i, pre.length ≤ i → i ≤ pre.length + k → ¬ OpensAt text i) :
    pieceAt text (pre.length + k) = s[k]?.toList := by
  have hinside : ¬ ∃ i < pre.length + k,
      pre.length + k < i + arrayOpen.length ∧ OpensAt text i := by
    rintro ⟨i, hi, hlt, hopen⟩
    rw [length_arrayOpen] at hlt
    by_cases hbefore : i < pre.length
    · obtain ⟨j, -, hj⟩ := hopen
      have := (h.apart i hbefore j hj).1
      omega
    · exact hlocal i (by omega) (by omega) hopen
  have hclosing : ¬ ∃ i < pre.length + k, ArrayAt text i (pre.length + k) := by
    rintro ⟨i, hi, hj⟩
    by_cases hbefore : i < pre.length
    · have := (h.apart i hbefore _ hj).2
      omega
    · exact hlocal i (by omega) (by omega) hj.opensAt
  rw [pieceAt, if_neg (hlocal _ (by omega) (Nat.le_refl _)), if_neg hinside, if_neg hclosing,
    h.parts, List.getElem?_append_right (by omega), Nat.add_sub_cancel_left,
    List.getElem?_append_left hk]

/-! The three steps of the recursion. -/

theorem not_opensAt_of_after? (h : Level text pre before (c :: s) post)
    (hopen : after? arrayOpen (c :: s) = none) : ¬ OpensAt text pre.length := by
  rintro ⟨j, -, ⟨t, ht⟩, -⟩
  rw [h.parts, List.drop_left] at ht
  rcases List.append_eq_append_iff.1 ht with ⟨u, hu, -⟩ | ⟨u, hu, hpost⟩
  · rw [hu, after?_append] at hopen
    cases hopen
  · cases u with
    | nil =>
      rw [List.append_nil] at hu
      have hself := after?_append arrayOpen []
      rw [List.append_nil] at hself
      rw [← hu, hself] at hopen
      cases hopen
    | cons c' u =>
      -- the opening would reach over the bracket that follows the level
      have hbracket : '>' ∉ arrayOpen := by decide
      have hc' : c' = '>' := h.ends c' (by rw [hpost]; rfl)
      exact hbracket (by rw [hu, hc']; simp)

theorem cons (h : Level text pre before (c :: s) post)
    (hopen : after? arrayOpen (c :: s) = none) : Level text (pre ++ [c]) (c :: before) s post where
  parts := by simpa using h.parts
  ends := h.ends
  closed x y heq := h.closed (c :: x) y (by rw [heq, List.cons_append])
  apart i hi j hj := by
    rw [List.length_append, List.length_singleton] at hi ⊢
    by_cases hbefore : i < pre.length
    · obtain ⟨hle, hout⟩ := h.apart i hbefore j hj
      rw [List.length_cons] at hout
      exact ⟨by omega, by omega⟩
    · have heq : i = pre.length := by omega
      exact absurd hj.opensAt (heq ▸ h.not_opensAt_of_after? hopen)
  data a := by simpa using h.data (c :: a)

theorem arrayOpen_prefix (h : Level text pre before (arrayOpen ++ body) post) :
    arrayOpen <+: text.drop pre.length := by
  rw [h.parts, List.drop_left, List.append_assoc]
  exact List.prefix_append _ _

theorem not_opensAt_of_kept (h : Level text pre before (arrayOpen ++ body) post)
    (hkept : Kept before body) : ¬ OpensAt text pre.length := by
  rintro ⟨j, -, hj⟩
  obtain ⟨x, body', a, b, heq, hx, hdata, hclosed, -⟩ := arrayAt_iff.1 hj
  rw [h.parts, List.append_assoc] at heq
  obtain ⟨rfl, hrest⟩ := List.append_inj heq hx.symm
  rw [← List.append_cancel_left hrest] at hclosed
  rcases hkept with hkept | hkept
  · exact hdata (by simpa using (h.data []).2 (by simpa using hkept))
  · have hsome := h.closed "Array".toList body rfl (by rw [hclosed]; rfl)
    rw [hkept] at hsome
    cases hsome

theorem not_opensAt_opening (h : Level text pre before (arrayOpen ++ body) post)
    (hkept : Kept before body) (hi : pre.length ≤ i) (hlt : i < pre.length + 6) :
    ¬ OpensAt text i := by
  rcases Nat.eq_or_lt_of_le hi with rfl | hi
  · exact h.not_opensAt_of_kept hkept
  · exact not_opensAt_inside h.arrayOpen_prefix hi hlt

theorem kept (h : Level text pre before (arrayOpen ++ body) post) (hkept : Kept before body) :
    Level text (pre ++ arrayOpen) [] body post where
  parts := by simpa using h.parts
  ends := h.ends
  closed x y heq := h.closed (arrayOpen ++ x) y (by rw [heq, List.append_assoc])
  apart i hi j hj := by
    rw [List.length_append, length_arrayOpen] at hi ⊢
    by_cases hbefore : i < pre.length
    · obtain ⟨hle, hout⟩ := h.apart i hbefore j hj
      rw [List.length_append, length_arrayOpen] at hout
      exact ⟨by omega, by omega⟩
    · exact absurd hj.opensAt (h.not_opensAt_opening hkept (by omega) hi)
  data a := by simpa using dataNamespace_suffix_iff

/-- The array at the head of a level. -/
theorem arrayAt (h : Level text pre before (arrayOpen ++ body) post)
    (hdata : ¬ dataNamespace <:+ before.reverse) (hclosed : splitClosing 0 body = some (a, b)) :
    ArrayAt text pre.length (pre.length + 6 + a.length) := by
  obtain ⟨rfl, hbalanced⟩ := splitClosing_eq_some_iff.1 hclosed
  refine arrayAt_iff.2 ⟨pre, a ++ '>' :: b ++ post, a, b ++ post, ?_, rfl, ?_, ?_, rfl⟩
  · rw [h.parts, List.append_assoc]
  · intro hpre
    exact hdata (by simpa using (h.data []).1 (by simpa using hpre))
  · exact splitClosing_eq_some_iff.2 ⟨by simp, hbalanced⟩

/-- What the array holds is a level. -/
theorem inner (h : Level text pre before (arrayOpen ++ body) post)
    (hdata : ¬ dataNamespace <:+ before.reverse) (hclosed : splitClosing 0 body = some (a, b)) :
    Level text (pre ++ arrayOpen) [] a ('>' :: (b ++ post)) := by
  have harray := h.arrayAt hdata hclosed
  obtain ⟨rfl, hbalanced⟩ := splitClosing_eq_some_iff.1 hclosed
  refine ⟨by simpa using h.parts, by simp, ?_, ?_, fun a => by simpa using dataNamespace_suffix_iff⟩
  · rintro x y rfl -
    exact Balanced.isSome_splitClosing hbalanced
  · intro i hi j hj
    rw [List.length_append, length_arrayOpen] at hi ⊢
    rcases Nat.lt_trichotomy i pre.length with hlt | rfl | hlt
    · obtain ⟨hle, hout⟩ := h.apart i hlt j hj
      rw [List.length_append, List.length_append, length_arrayOpen] at hout
      exact ⟨by omega, by omega⟩
    · have := harray.closing_unique hj
      exact ⟨Nat.le_refl _, by omega⟩
    · exact absurd hj.opensAt (not_opensAt_inside h.arrayOpen_prefix hlt hi)

/-- And so is what follows it. -/
theorem rest (h : Level text pre before (arrayOpen ++ body) post)
    (hdata : ¬ dataNamespace <:+ before.reverse) (hclosed : splitClosing 0 body = some (a, b)) :
    Level text (pre ++ arrayOpen ++ a ++ ['>']) [] b post := by
  have harray := h.arrayAt hdata hclosed
  have hinner := h.inner hdata hclosed
  obtain ⟨rfl, hbalanced⟩ := splitClosing_eq_some_iff.1 hclosed
  refine ⟨by simpa using h.parts, h.ends, ?_, ?_, fun u => ?_⟩
  · intro x y heq
    exact h.closed (arrayOpen ++ a ++ '>' :: x) y (by simp [heq])
  · intro i hi j hj
    have hlength : (pre ++ arrayOpen ++ a ++ ['>']).length = pre.length + 6 + a.length + 1 := by
      simp [length_arrayOpen, Nat.add_assoc]
    rw [hlength] at hi ⊢
    rcases Nat.lt_trichotomy i pre.length with hlt | rfl | hlt
    · obtain ⟨hle, hout⟩ := h.apart i hlt j hj
      simp only [List.length_append, List.length_cons, length_arrayOpen] at hout
      exact ⟨by omega, by omega⟩
    · have := harray.closing_unique hj
      exact ⟨by omega, by omega⟩
    · by_cases hopening : i < pre.length + 6
      · exact absurd hj.opensAt (not_opensAt_inside h.arrayOpen_prefix hlt hopening)
      · have hwithin := hj.within hinner.parts hbalanced
        simp only [List.length_append, length_arrayOpen] at hwithin
        obtain ⟨hle, hlt⟩ := hwithin (by omega) (by omega)
        exact ⟨by omega, by omega⟩
  · rw [show pre ++ arrayOpen ++ a ++ ['>'] ++ u = (pre ++ arrayOpen ++ a) ++ '>' :: u by simp]
    exact dataNamespace_suffix_cons (by decide)

/-- **Level by level is position by position.** -/
theorem bracketArrays_eq (h : Level text pre before s post) :
    bracketArrays before s = (List.range' pre.length s.length).flatMap (pieceAt text) := by
  induction before, s using arrays_induction generalizing pre post with
  | nil before => rw [bracketArrays]; rfl
  | cons before c s hopen ih =>
    have hself : pieceAt text pre.length = [c] := by
      refine h.pieceAt_eq (k := 0) (by simp) fun i hi hle => ?_
      rw [Nat.le_antisymm hle hi]
      exact h.not_opensAt_of_after? hopen
    rw [bracketArrays_cons hopen, ih (h.cons hopen), List.length_cons, List.range'_succ,
      List.flatMap_cons, hself, List.length_append, List.length_singleton, List.singleton_append]
  | kept before body hkept ih =>
    have hself : (List.range' pre.length 6).flatMap (pieceAt text) = arrayOpen := by
      have hpiece : ∀ k < 6, pieceAt text (pre.length + k) = arrayOpen[k]?.toList := by
        intro k hk
        rw [h.pieceAt_eq (by simp [length_arrayOpen]; omega) fun i hi hle =>
          h.not_opensAt_opening hkept hi (by omega), List.getElem?_append_left hk]
      have hrange : List.range' pre.length 6 = (List.range 6).map (pre.length + ·) := by
        simp [List.range'_eq_map_range]
      rw [hrange, List.flatMap_map, List.flatMap_congr fun k hk => hpiece k (List.mem_range.1 hk)]
      rfl
    rw [bracketArrays_kept hkept, ih (h.kept hkept), List.length_append, List.length_append,
      length_arrayOpen, ← List.range'_append_1, List.flatMap_append, hself]
  | opened before body a b hdata hclosed iha ihb =>
    have harray := h.arrayAt hdata hclosed
    have hinner := iha (h.inner hdata hclosed)
    have hrest := ihb (h.rest hdata hclosed)
    have hopening := h.arrayOpen_prefix
    have hparen : (List.range' pre.length 6).flatMap (pieceAt text) = ['('] := by
      have hfirst : pieceAt text pre.length = ['('] := if_pos harray.opensAt
      have hothers : ∀ k ∈ List.range' (pre.length + 1) 5, pieceAt text k = [] := by
        intro k hk
        obtain ⟨hlt, hle⟩ := List.mem_range'_1.1 hk
        rw [pieceAt, if_neg (not_opensAt_inside hopening hlt (by omega)), if_pos]
        exact ⟨pre.length, hlt, by rw [length_arrayOpen]; omega, harray.opensAt⟩
      rw [List.range'_succ, List.flatMap_cons, hfirst, List.flatMap_eq_nil_iff.2 hothers]
      rfl
    have hpostfix : pieceAt text (pre.length + 6 + a.length) = ")[]".toList := by
      have hbracket := harray.2.2.2.1
      rw [pieceAt, if_neg, if_neg, if_pos]
      · exact ⟨pre.length, by omega, harray⟩
      · rintro ⟨i, hi, hlt, j, -, hj⟩
        exact not_closing_inside hj.1 (Nat.le_of_lt hi) hlt hbracket
      · rintro ⟨j, -, hj⟩
        exact not_closing_inside hj.1 (Nat.le_refl _) (by omega) hbracket
    have hlength : (pre ++ arrayOpen ++ a ++ ['>']).length = pre.length + 6 + a.length + 1 := by
      simp [length_arrayOpen, Nat.add_assoc]
    obtain ⟨rfl, -⟩ := splitClosing_eq_some_iff.1 hclosed
    rw [hlength] at hrest
    rw [List.length_append, length_arrayOpen] at hinner
    have hrange : List.range' pre.length (6 + (a.length + (b.length + 1))) =
        List.range' pre.length 6 ++ (List.range' (pre.length + 6) a.length ++
          (pre.length + 6 + a.length) :: List.range' (pre.length + 6 + a.length + 1) b.length) := by
      rw [← List.range'_append_1, ← List.range'_append_1, List.range'_succ (n := b.length)]
    rw [bracketArrays_opened hdata hclosed, hinner, hrest, List.length_append, length_arrayOpen,
      List.length_append, List.length_cons, hrange, List.flatMap_append, List.flatMap_append,
      List.flatMap_cons, hparen, hpostfix, List.append_assoc]
    rfl

end Level

/-! ## No array is left -/

/-- A part of a text without a character lies on one side of it. -/
theorem eq_append_of_notMem {p q word : List Char} (hc : c ∉ word)
    (h : p ++ c :: q = x ++ word ++ y) :
    (∃ y', p = x ++ word ++ y' ∧ y = y' ++ c :: q) ∨
      ∃ x', x = p ++ c :: x' ∧ q = x' ++ word ++ y := by
  rcases List.append_eq_append_iff.1 h with ⟨u, hu, hq⟩ | ⟨u, rfl, hy⟩
  · cases u with
    | nil => exact .inl ⟨[], by simpa using hu.symm, by simpa using hq.symm⟩
    | cons c' u =>
      obtain ⟨rfl, rfl⟩ := List.cons.inj hq
      rcases List.append_eq_append_iff.1 hu with ⟨v, -, hword⟩ | ⟨v, rfl, hv⟩
      · exact absurd (by rw [hword]; simp) hc
      · cases v with
        | nil => exact absurd (by rw [← List.nil_append word, ← hv]; simp) hc
        | cons c' v =>
          obtain ⟨rfl, rfl⟩ := List.cons.inj hv
          exact .inr ⟨v, rfl, rfl⟩
  · exact .inl ⟨u, rfl, hy⟩

theorem nil_ne_append_arrayOpen : [] ≠ x ++ arrayOpen ++ y := by
  intro h
  have hlength := congrArg List.length h
  simp only [List.length_append, List.length_nil, length_arrayOpen] at hlength
  omega

/-- An opening has none of the postfix brackets, so one in a rewritten array
or behind it stands on one side of them. -/
theorem eq_append_of_opened {u v : List Char}
    (h : '(' :: u ++ ")[]".toList ++ v = x ++ arrayOpen ++ y) :
    (∃ x' y', u = x' ++ arrayOpen ++ y' ∧ x = '(' :: x' ∧ y = y' ++ ")[]".toList ++ v) ∨
      ∃ x', v = x' ++ arrayOpen ++ y ∧ x = ('(' :: u ++ ")[".toList) ++ ']' :: x' := by
  have hparts : [] ++ '(' :: (u ++ ')' :: ([] ++ '[' :: ([] ++ ']' :: v))) =
      x ++ arrayOpen ++ y := by
    rw [← h]
    simp
  obtain ⟨_, hnil, -⟩ | ⟨x, rfl, hinner⟩ := eq_append_of_notMem (by decide) hparts
  · exact absurd hnil nil_ne_append_arrayOpen
  obtain ⟨y', rfl, rfl⟩ | ⟨x, rfl, hbehind⟩ := eq_append_of_notMem (by decide) hinner
  · exact .inl ⟨x, y', rfl, rfl, by simp⟩
  obtain ⟨_, hnil, -⟩ | ⟨x, rfl, hlast⟩ := eq_append_of_notMem (by decide) hbehind
  · exact absurd hnil nil_ne_append_arrayOpen
  obtain ⟨_, hnil, -⟩ | ⟨x, rfl, hrest⟩ := eq_append_of_notMem (by decide) hlast
  · exact absurd hnil nil_ne_append_arrayOpen
  exact .inr ⟨x, hrest, by simp⟩

/-- Whether a bracket before the text is closed behind it does not depend on
its arrays being postfix. -/
theorem isSome_splitClosing_bracketArrays :
    (splitClosing d (bracketArrays before s ++ r)).isSome ↔ (splitClosing d (s ++ r)).isSome := by
  induction before, s using arrays_induction generalizing d r with
  | nil before => rw [bracketArrays]
  | cons before c s hopen ih =>
    rw [bracketArrays_cons hopen, List.cons_append, List.cons_append, isSome_splitClosing_cons,
      isSome_splitClosing_cons, ih]
  | kept before body hkept ih =>
    have hword : Leaves 0 1 arrayOpen := by decide
    have hopening : ∀ t, (splitClosing d (arrayOpen ++ t)).isSome ↔
        (splitClosing (d + 1) t).isSome := fun t => isSome_splitClosing_append hword
    rw [bracketArrays_kept hkept, List.append_assoc, List.append_assoc, hopening, hopening, ih]
  | opened before body a b hdata hclosed iha ihb =>
    obtain ⟨rfl, hbalanced⟩ := splitClosing_eq_some_iff.1 hclosed
    have hwhole : ∀ t, (splitClosing d (arrayOpen ++ (a ++ '>' :: b) ++ t)).isSome ↔
        (splitClosing d (b ++ t)).isSome := by
      intro t
      have hpair : Leaves 0 0 (arrayOpen ++ a ++ ['>']) :=
        leaves_append.2 ⟨1, leaves_append.2 ⟨1, by decide, hbalanced.succ⟩, by decide⟩
      simpa using isSome_splitClosing_append (d := d) (r := b ++ t) hpair
    have hparen : Leaves 0 0 ['('] := by decide
    have hpostfix : Leaves 0 0 ")[]".toList := by decide
    have hbrackets : bracketArrays before (arrayOpen ++ (a ++ '>' :: b)) ++ r =
        ['('] ++ (bracketArrays [] a ++ (")[]".toList ++ (bracketArrays [] b ++ r))) := by
      simp [bracketArrays_opened hdata hclosed]
    calc (splitClosing d (bracketArrays before (arrayOpen ++ (a ++ '>' :: b)) ++ r)).isSome
        ↔ (splitClosing d (bracketArrays [] a ++
            (")[]".toList ++ (bracketArrays [] b ++ r)))).isSome := by
          rw [hbrackets]
          exact isSome_splitClosing_append hparen
      _ ↔ (splitClosing d (a ++ (")[]".toList ++ (bracketArrays [] b ++ r)))).isSome := iha
      _ ↔ (splitClosing d (")[]".toList ++ (bracketArrays [] b ++ r))).isSome :=
          isSome_splitClosing_append hbalanced
      _ ↔ (splitClosing d (bracketArrays [] b ++ r)).isSome := isSome_splitClosing_append hpostfix
      _ ↔ (splitClosing d (b ++ r)).isSome := ihb
      _ ↔ (splitClosing d (arrayOpen ++ (a ++ '>' :: b) ++ r)).isSome := (hwhole r).symm

/-- A text without a parenthesis that the result starts with is the start of
the text itself. -/
theorem prefix_of_prefix_bracketArrays {p : List Char} (hp : '(' ∉ p)
    (h : p <+: bracketArrays before s) : p <+: s := by
  induction before, s using arrays_induction generalizing p with
  | nil before => rwa [bracketArrays] at h
  | cons before c s hopen ih =>
    rw [bracketArrays_cons hopen] at h
    rcases List.prefix_cons_iff.1 h with rfl | ⟨q, rfl, hq⟩
    · exact List.nil_prefix
    · exact List.prefix_cons_iff.2 (.inr ⟨q, rfl, ih (fun hmem => hp (by simp [hmem])) hq⟩)
  | kept before body hkept ih =>
    rw [bracketArrays_kept hkept] at h
    rcases List.prefix_or_prefix_of_prefix h (List.prefix_append arrayOpen _) with h' | ⟨q, rfl⟩
    · exact h'.trans (List.prefix_append _ _)
    · rw [List.prefix_append_right_inj] at h ⊢
      exact ih (fun hmem => hp (by simp [hmem])) h
  | opened before body a b hdata hclosed =>
    rw [bracketArrays_opened hdata hclosed] at h
    rcases List.prefix_cons_iff.1 h with rfl | ⟨q, rfl, hq⟩
    · exact List.nil_prefix
    · simp at hp

/-- **No array is left**, whatever text follows that closes nothing the text
has left open. -/
theorem not_opens_bracketArrays
    (hopen : ∀ x y, s = x ++ '<' :: y → (splitClosing 0 (y ++ r)).isSome →
      (splitClosing 0 y).isSome)
    (h : bracketArrays before s = x ++ arrayOpen ++ y)
    (hclosed : (splitClosing 0 (y ++ r)).isSome) : dataNamespace <:+ before.reverse ++ x := by
  induction before, s using arrays_induction generalizing x y r with
  | nil before =>
    rw [bracketArrays] at h
    exact absurd h nil_ne_append_arrayOpen
  | cons before c s hfirst ih =>
    rw [bracketArrays_cons hfirst] at h
    cases x with
    | nil =>
      -- an opening at the head of the result would stand in the text
      have hparen : '(' ∉ arrayOpen := by decide
      have hstart : arrayOpen <+: bracketArrays before (c :: s) := by
        rw [bracketArrays_cons hfirst, h, List.nil_append]
        exact List.prefix_append _ _
      obtain ⟨t, ht⟩ := prefix_of_prefix_bracketArrays hparen hstart
      rw [← ht, after?_append] at hfirst
      cases hfirst
    | cons d x =>
      rw [List.cons_append, List.cons_append] at h
      obtain ⟨rfl, htail⟩ := List.cons.inj h
      have hlater := ih (fun u v heq => hopen (c :: u) v (by rw [heq, List.cons_append])) htail
        hclosed
      simpa using hlater
  | kept before body hkept ih =>
    rw [bracketArrays_kept hkept] at h
    rcases arrayOpen_append_eq h with rfl | ⟨x, rfl, hbody⟩
    · rw [List.nil_append, List.append_cancel_left_eq] at h
      rw [← h, isSome_splitClosing_bracketArrays] at hclosed
      rcases hkept with hkept | hkept
      · simpa using hkept
      · have hsome := hopen "Array".toList body rfl hclosed
        rw [hkept] at hsome
        cases hsome
    · have hlater := ih (fun u v heq => hopen (arrayOpen ++ u) v (by rw [heq, List.append_assoc]))
        hbody hclosed
      exact dataNamespace_suffix_iff.2 (by simpa using hlater)
  | opened before body a b hdata hsplit iha ihb =>
    obtain ⟨rfl, hbalanced⟩ := splitClosing_eq_some_iff.1 hsplit
    rw [bracketArrays_opened hdata hsplit] at h
    obtain ⟨x, y, ha, rfl, rfl⟩ | ⟨x, hb, rfl⟩ := eq_append_of_opened h
    · rw [dataNamespace_suffix_cons (by decide)]
      rw [List.append_assoc, List.append_assoc] at hclosed
      exact iha (fun u v heq _ => Balanced.isSome_splitClosing (heq ▸ hbalanced)) ha hclosed
    · rw [← List.append_assoc, dataNamespace_suffix_cons (by decide)]
      exact ihb (fun u v heq => hopen (arrayOpen ++ a ++ '>' :: u) v (by simp [heq])) hb hclosed

theorem not_opensArray_bracketArrays (s : List Char) : ¬ OpensArray [] (bracketArrays [] s) := by
  rintro ⟨x, y, h, hclosed, hdata⟩
  exact hdata (not_opens_bracketArrays (r := []) (by simp) h (by simpa using hclosed))

theorem opensArray_iff_exists_arrayAt : OpensArray [] s ↔ ∃ i j, ArrayAt s i j := by
  constructor
  · rintro ⟨x, body, rfl, hclosed, hdata⟩
    obtain ⟨⟨a, b⟩, hclosed⟩ := Option.isSome_iff_exists.1 hclosed
    exact ⟨x.length, _, arrayAt_iff.2
      ⟨x, body, a, b, List.append_assoc _ _ _, rfl, by simpa using hdata, hclosed, rfl⟩⟩
  · rintro ⟨i, j, h⟩
    obtain ⟨x, body, a, b, rfl, -, hdata, hclosed, -⟩ := arrayAt_iff.1 h
    exact ⟨x, body, (List.append_assoc _ _ _).symm, by rw [hclosed]; rfl, by simpa using hdata⟩

/-- **Making arrays postfix is a rewriting of positions.** For every text the
result is the text with each array's opening and closing bracket replaced
where they stand and every other character kept. No array is left in it, so
making the arrays postfix again changes nothing. -/
theorem bracketArrays_eq_postfixArrays (s : List Char) :
    bracketArrays [] s = postfixArrays s ∧ (∀ i j, ¬ ArrayAt (bracketArrays [] s) i j) ∧
      bracketArrays [] (bracketArrays [] s) = bracketArrays [] s := by
  have hleft := not_opensArray_bracketArrays s
  refine ⟨?_, fun i j h => hleft (opensArray_iff_exists_arrayAt.2 ⟨i, j, h⟩),
    bracketArrays_eq_self hleft⟩
  rw [(Level.whole s).bracketArrays_eq, postfixArrays, List.range_eq_range']
  rfl

example : postfixArrays "Array<qx.data.Array<Array<a>>>|Array<b".toList =
    "(qx.data.Array<(a)[]>)[]|Array<b".toList := by decide +kernel

end Ambient.Annotation
