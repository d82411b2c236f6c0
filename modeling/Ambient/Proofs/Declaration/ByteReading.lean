import Ambient.Proofs.Declaration.TypeExpression
import Ambient.Proofs.Text.Bytes

/-!
# A line read at byte positions

A line is stored as bytes, and its type expression can be looked for there
(`stripAtBytes`): the braces are found at byte positions, the open ones are
counted with a counter that has nothing below zero, and the line is cut where
they were found. Every step can fail for some bytes (`ReadFault`). None does
for the bytes of a line, and the line that is left is the same
(`stripAtBytes_eq_ok`): no byte of a longer character is that of a brace, and
the search ends when the counter gets back to zero.
-/

namespace Ambient.Doc

open Text

variable {line x : List Char} {depth start : Nat}

/-- What can go wrong when a line is read at byte positions. -/
inductive ReadFault where
  /-- A brace is closed while the counter of the open ones is zero. -/
  | belowZero
  /-- The line is cut behind its end or inside a character. -/
  | badCut
  deriving DecidableEq, Repr

/-- The position of the brace that closes the last one that is open, when the
bytes start at position `start` and `depth` braces are open. -/
def closingAt (depth start : Nat) : List UInt8 → Except ReadFault (Option Nat)
  | [] => .ok none
  | x :: xs =>
    if x = '\x7b'.toUInt8 then closingAt (depth + 1) (start + 1) xs
    else if x = '\x7d'.toUInt8 then
      if depth = 0 then .error .belowZero
      else if depth - 1 = 0 then .ok (some start)
      else closingAt (depth - 1) (start + 1) xs
    else closingAt depth (start + 1) xs

/-- A brace lies before the end of the line. -/
theorem length_takeWhile_lt {rest : List Char} (hcut : cutAt? start line = some (x, rest))
    (hmem : '\x7b' ∈ rest) :
    start + (bytes (rest.takeWhile (· ≠ '\x7b'))).length < (bytes line).length := by
  obtain ⟨rfl, rfl⟩ := eq_append_of_cutAt? hcut
  obtain ⟨a, b, rfl, ha⟩ := List.eq_append_cons_of_mem hmem
  rw [takeWhile_ne_append_cons ha, bytes_append, bytes_append, bytes_cons_of_le (by decide)]
  simp only [List.length_append, List.length_cons]
  omega

/-- The position at or behind `start` of the first brace that no at-sign
follows. -/
def openingAt (line : List Char) (start : Nat) : Except ReadFault (Option Nat) :=
  match _hcut : cutAt? start line with
  | none => .error .badCut
  | some (_, rest) =>
    if _hmem : '\x7b' ∈ rest then
      let found := start + (bytes (rest.takeWhile (· ≠ '\x7b'))).length
      if (bytes line)[found + 1]? = some '@'.toUInt8 then openingAt line (found + 1)
      else .ok (some found)
    else .ok none
  termination_by (bytes line).length - start
  decreasing_by
    have := length_takeWhile_lt _hcut _hmem
    omega

/-- The positions of the braces around the first type expression. -/
def bracesAt (line : List Char) : Except ReadFault (Option (Nat × Nat)) := do
  match ← openingAt line 0 with
  | none => return none
  | some first =>
    return (← closingAt 0 first ((bytes line).drop first)).map (first, ·)

/-- The line without its first type expression, read at byte positions. -/
def stripAtBytes (line : List Char) : Except ReadFault (List Char) := do
  match ← bracesAt line with
  | none => return line
  | some (first, last) =>
    match cutAt? first line, cutAt? (last + 1) line with
    | some (before, _), some (_, after) => return trim before ++ ' ' :: trim after
    | _, _ => .error .badCut

/-! ## Nothing goes wrong -/

theorem splitTypeOpening_of_notMem (h : '\x7b' ∉ s) : splitTypeOpening s = none := by
  induction s with
  | nil => rfl
  | cons c s ih =>
    rw [List.mem_cons, not_or] at h
    have hc : ¬ (c = '\x7b' ∧ s.head? ≠ some '@') := fun hopens => h.1 hopens.1.symm
    rw [splitTypeOpening, if_neg hc, ih h.2, Option.map_none]

/-- The scan looks at one brace after the other. -/
theorem splitTypeOpening_append {a : List Char} (ha : '\x7b' ∉ a) (b : List Char) :
    splitTypeOpening (a ++ '\x7b' :: b) =
      if b.head? = some '@' then
        (splitTypeOpening b).map fun (before, s) => (a ++ '\x7b' :: before, s)
      else some (a, '\x7b' :: b) := by
  induction a with
  | nil =>
    rw [List.nil_append, splitTypeOpening]
    by_cases hb : b.head? = some '@' <;> simp [hb]
  | cons c a ih =>
    rw [List.mem_cons, not_or] at ha
    have hc : ¬ (c = '\x7b' ∧ (a ++ '\x7b' :: b).head? ≠ some '@') :=
      fun hopens => ha.1 hopens.1.symm
    rw [List.cons_append, splitTypeOpening, if_neg hc, ih ha.2]
    split
    · rw [Option.map_map]
      rfl
    · rfl

/-- **The opening brace is found at its byte position.** Every position at which
the search goes on is one at which the line can be cut. -/
theorem openingAt_length (read rest : List Char) :
    openingAt (read ++ rest) (bytes read).length =
      .ok ((splitTypeOpening rest).map fun p => (bytes (read ++ p.1)).length) := by
  induction hn : rest.length using Nat.strongRecOn generalizing read rest with
  | ind n ih =>
    subst hn
    rw [openingAt]
    split
    · rename_i hnone
      rw [cutAt?_length] at hnone
      cases hnone
    · rename_i x rest' hcut
      rw [cutAt?_length] at hcut
      cases hcut
      split
      · rename_i hmem
        obtain ⟨a, b, rfl, ha⟩ := List.eq_append_cons_of_mem hmem
        have hfound : (bytes read).length + (bytes a).length = (bytes (read ++ a)).length := by
          simp
        -- behind the brace the bytes are those of the rest of the line
        have hnext : (bytes (read ++ (a ++ '\x7b' :: b)))[(bytes (read ++ a)).length + 1]? =
            (bytes b).head? := by
          rw [← List.append_assoc, bytes_append, bytes_cons_of_le (by decide),
            List.getElem?_append_right (by omega), List.head?_eq_getElem?]
          simp
        have hat : (bytes b).head? = some '@'.toUInt8 ↔ b.head? = some '@' :=
          head?_bytes_eq_some_iff (by decide) b
        have hbrace : (bytes (read ++ a)).length + 1 = (bytes (read ++ a ++ ['\x7b'])).length := by
          rw [bytes_append (read ++ a), bytes_cons_of_le (by decide), List.length_append]
          rfl
        have hline : read ++ (a ++ '\x7b' :: b) = read ++ a ++ ['\x7b'] ++ b := by simp
        simp only [takeWhile_ne_append_cons ha, hfound, hnext, hat, splitTypeOpening_append ha]
        split
        · rw [hbrace, hline, ih b.length (by simp; omega) _ b rfl, Option.map_map]
          simp [Function.comp_def]
        · rfl
      · rename_i hmem
        rw [splitTypeOpening_of_notMem hmem, Option.map_none]

/-- Bytes that are no braces are passed over. -/
theorem closingAt_append {xs : List UInt8} (hopen : '\x7b'.toUInt8 ∉ xs)
    (hclose : '\x7d'.toUInt8 ∉ xs) (ys : List UInt8) :
    closingAt depth start (xs ++ ys) = closingAt depth (start + xs.length) ys := by
  induction xs generalizing start with
  | nil => rfl
  | cons x xs ih =>
    rw [List.mem_cons, not_or] at hopen hclose
    rw [List.cons_append, closingAt, if_neg fun h => hopen.1 h.symm,
      if_neg fun h => hclose.1 h.symm, ih hopen.2 hclose.2, List.length_cons]
    congr 1
    omega

/-- **The closing brace is found at its byte position**, and the counter of the
open braces never falls below zero: the search ends when it would reach it. -/
theorem closingAt_bytes (depth start : Nat) (s : List Char) :
    closingAt (depth + 1) start (bytes s) =
      .ok ((afterClosing? depth s).map fun after =>
        start + (bytes s).length - (bytes after).length - 1) := by
  induction s generalizing depth start with
  | nil => rfl
  | cons c s ih =>
    rw [afterClosing?]
    by_cases hopen : c = '\x7b'
    · subst hopen
      have hnot : ¬ ('\x7b' = '\x7d' ∧ depth = 0) := by simp
      rw [bytes_cons_of_le (by decide), closingAt, if_pos rfl, if_neg hnot, if_pos rfl, ih]
      simp only [List.length_cons]
      congr 3
      funext after
      omega
    · by_cases hclose : c = '\x7d'
      · subst hclose
        have hbyte : ¬ '\x7d'.toUInt8 = '\x7b'.toUInt8 := by decide
        rw [bytes_cons_of_le (by decide), closingAt, if_neg hbyte, if_pos rfl,
          if_neg (Nat.succ_ne_zero depth), Nat.add_sub_cancel]
        cases depth with
        | zero =>
          simp
          omega
        | succ depth =>
          have hnot : ¬ ('\x7d' = '\x7d' ∧ depth + 1 = 0) := by simp
          rw [if_neg (Nat.succ_ne_zero depth), if_neg hnot, if_neg hopen, if_pos rfl, ih]
          simp only [List.length_cons, Nat.add_sub_cancel]
          congr 3
          funext after
          omega
      · have hnot : ¬ (c = '\x7d' ∧ depth = 0) := fun h => hclose h.1
        rw [bytes_cons, closingAt_append (toUInt8_notMem_utf8EncodeChar (by decide) hopen)
          (toUInt8_notMem_utf8EncodeChar (by decide) hclose), if_neg hnot, if_neg hopen,
          if_neg hclose, ih]
        simp only [List.length_append]
        congr 3
        funext after
        omega

/-- From the opening brace on the bytes are those of the expression. -/
theorem closingAt_drop (before e : List Char) :
    closingAt 0 (bytes before).length ((bytes (before ++ '\x7b' :: e)).drop (bytes before).length) =
      .ok ((afterClosing? 0 e).map fun after =>
        (bytes (before ++ '\x7b' :: e)).length - (bytes after).length - 1) := by
  rw [bytes_append, List.drop_left, bytes_cons_of_le (by decide), closingAt, if_pos rfl,
    closingAt_bytes]
  simp only [List.length_append, List.length_cons]
  congr 3
  funext after
  omega

theorem bracesAt_eq (line : List Char) :
    bracesAt line = .ok ((splitTypeOpening line).bind fun p =>
      (afterClosing? 0 p.2.tail).map fun after =>
        ((bytes p.1).length, (bytes line).length - (bytes after).length - 1)) := by
  have hopening := openingAt_length [] line
  rw [bytes_nil, List.length_nil, List.nil_append] at hopening
  rw [bracesAt, hopening]
  cases hsplit : splitTypeOpening line with
  | none => rfl
  | some p =>
    obtain ⟨before, s⟩ := p
    obtain ⟨rfl, ⟨e, rfl, -⟩, -⟩ := splitTypeOpening_eq_some_iff.1 hsplit
    have hclosing := closingAt_drop before e
    simp only [Option.map_some, List.nil_append, bind, Except.bind, pure, Except.pure, hclosing,
      Option.bind_some, List.tail_cons, Option.map_map]
    rfl

/-- **Reading the bytes gives the same line**, and never fails. -/
theorem stripAtBytes_eq_ok (line : List Char) :
    stripAtBytes line = .ok (stripTypeExpression line) := by
  rw [stripAtBytes, bracesAt_eq, stripTypeExpression]
  cases hsplit : splitTypeOpening line with
  | none => rfl
  | some p =>
    obtain ⟨before, s⟩ := p
    obtain ⟨rfl, ⟨e, rfl, -⟩, -⟩ := splitTypeOpening_eq_some_iff.1 hsplit
    cases hafter : afterClosing? 0 e with
    | none => simp [hafter, bind, Except.bind, pure, Except.pure]
    | some after =>
      -- both braces lie between two characters
      obtain ⟨x, rfl, hcloses⟩ := afterClosing?_eq_some_iff.1 hafter
      have hx : 0 < (bytes x).length := by
        cases x with
        | nil => exact absurd hcloses not_closes_nil
        | cons c x =>
          have hpos := c.utf8Size_pos
          rw [bytes_cons, List.length_append, String.length_utf8EncodeChar]
          omega
      have hfirst := cutAt?_length before ('\x7b' :: (x ++ after))
      have hlast := cutAt?_length (before ++ '\x7b' :: x) after
      have hposition : (bytes (before ++ '\x7b' :: (x ++ after))).length - (bytes after).length - 1 + 1 =
          (bytes (before ++ '\x7b' :: x)).length := by
        simp only [bytes_append, bytes_cons_of_le (show '\x7b'.val ≤ 127 by decide),
          List.length_append, List.length_cons]
        omega
      rw [List.append_assoc, List.cons_append] at hlast
      simp only [bind, Except.bind, pure, Except.pure, Option.bind_some, List.tail_cons, hafter,
        Option.map_some, hposition, hfirst, hlast]

/-! ## The line that is left -/

/-- **A line loses its first type expression and nothing else.** The brace that
opens it is the first that no at-sign follows, and the one that closes it is
found by counting; what stands before and behind is trimmed and parted by one
blank, so that inline tags before it and all characters but blanks are kept.
Without such an expression the line is kept, and in both cases as many braces
stay open as were. Reading the bytes of the line gives the same and never
fails. -/
theorem stripTypeExpression_spec (line : List Char) :
    stripAtBytes line = .ok (stripTypeExpression line) ∧
    (∀ before expression after, FirstTypeExpression line before expression after →
      stripTypeExpression line = trim before ++ ' ' :: trim after ∧
      (∀ tag, IsInlineTag tag → tag <:+: before → tag <:+: stripTypeExpression line) ∧
      (stripTypeExpression line).filter (!isBlank ·) = (before ++ after).filter (!isBlank ·)) ∧
    ((¬ ∃ before expression after, FirstTypeExpression line before expression after) →
      stripTypeExpression line = line) ∧
    ((stripTypeExpression line).count '\x7b' : Int) - (stripTypeExpression line).count '\x7d' =
      line.count '\x7b' - line.count '\x7d' := by
  refine ⟨stripAtBytes_eq_ok line, ?_, stripTypeExpression_eq_self, ?_⟩
  · intro before expression after h
    exact ⟨stripTypeExpression_of_first h, fun tag => h.infix_stripTypeExpression,
      h.filter_stripTypeExpression⟩
  · by_cases hfirst : ∃ before expression after, FirstTypeExpression line before expression after
    · obtain ⟨before, expression, after, h⟩ := hfirst
      have hopen := h.count_stripTypeExpression (c := '\x7b') (by decide)
      have hclose := h.count_stripTypeExpression (c := '\x7d') (by decide)
      have heven := h.closed
      omega
    · rw [stripTypeExpression_eq_self hfirst]

/-- A type expression with braces inside, behind an inline tag and before a brace
that closes nothing. -/
theorem stripTypeExpression_nested :
    FirstTypeExpression "* @param \x7b@link a.B\x7d é \x7bMap<\x7bK\x7d>\x7d the map \x7d".toList
        "* @param \x7b@link a.B\x7d é ".toList "\x7bMap<\x7bK\x7d>\x7d".toList
        " the map \x7d".toList ∧
      IsInlineTag "\x7b@link a.B\x7d".toList ∧
      stripTypeExpression
          "* @param \x7b@link a.B\x7d é \x7bMap<\x7bK\x7d>\x7d the map \x7d".toList =
        "* @param \x7b@link a.B\x7d é the map \x7d".toList := by
  have hclosing : afterClosing? 0 ("Map<\x7bK\x7d>\x7d".toList ++ " the map \x7d".toList) =
      some " the map \x7d".toList := by decide
  obtain ⟨x, hx, hcloses⟩ := afterClosing?_eq_some_iff.1 hclosing
  obtain rfl := List.append_cancel_right hx
  have hfirst : FirstTypeExpression
      "* @param \x7b@link a.B\x7d é \x7bMap<\x7bK\x7d>\x7d the map \x7d".toList
      "* @param \x7b@link a.B\x7d é ".toList "\x7bMap<\x7bK\x7d>\x7d".toList
      " the map \x7d".toList :=
    firstTypeExpression_iff.2 ⟨"Map<\x7bK\x7d>\x7d".toList, rfl, by decide, hcloses⟩
  refine ⟨hfirst, ⟨"link a.B".toList, by decide⟩, ?_⟩
  rw [((stripTypeExpression_spec _).2.1 _ _ _ hfirst).1]
  decide

end Ambient.Doc
