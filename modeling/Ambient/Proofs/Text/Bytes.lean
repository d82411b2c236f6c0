import Mathlib.Data.List.Basic

/-!
# Texts cut at bytes

A text is stored as its UTF-8 bytes, and a position in it is a number of bytes.
A text can only be cut between two of its characters: at a position inside one,
or behind the end, there is no cut (`cutAt?`). The positions at which it can be
cut are the lengths of its beginnings (`cutAt?_length`, `eq_append_of_cutAt?`).
A byte below 128 is a character of its own wherever it stands
(`head?_bytes_eq_some_iff`, `toUInt8_notMem_utf8EncodeChar`), so to look for
such characters among the bytes is to look for them in the text.
-/

namespace Ambient.Text

variable {s t a b : List Char} {c d : Char} {n : Nat}

/-- The bytes of a text. -/
def bytes (s : List Char) : List UInt8 :=
  s.flatMap String.utf8EncodeChar

/-- The two parts of a text before and behind so many bytes; none when the cut
would lie inside a character or behind the end. -/
def cutAt? : Nat → List Char → Option (List Char × List Char)
  | 0, s => some ([], s)
  | _ + 1, [] => none
  | n + 1, c :: s =>
    if c.utf8Size ≤ n + 1 then
      (cutAt? (n + 1 - c.utf8Size) s).map fun (a, b) => (c :: a, b)
    else none

/-! ## Bytes -/

@[simp] theorem bytes_nil : bytes [] = [] := rfl

theorem bytes_cons (c : Char) (s : List Char) :
    bytes (c :: s) = String.utf8EncodeChar c ++ bytes s := rfl

@[simp] theorem bytes_append (s t : List Char) : bytes (s ++ t) = bytes s ++ bytes t :=
  List.flatMap_append

/-- A character below 128 is one byte. -/
theorem utf8EncodeChar_of_le (h : c.val ≤ 127) : String.utf8EncodeChar c = [c.toUInt8] :=
  String.utf8EncodeChar_eq_singleton (Char.utf8Size_eq_one_iff.2 h)

theorem bytes_cons_of_le (h : c.val ≤ 127) (s : List Char) :
    bytes (c :: s) = c.toUInt8 :: bytes s := by
  rw [bytes_cons, utf8EncodeChar_of_le h]
  rfl

/-- Every byte of another character is at least 128. -/
theorem le_of_mem_utf8EncodeChar (h : ¬ c.val ≤ 127) {x : UInt8}
    (hx : x ∈ String.utf8EncodeChar c) : 128 ≤ x.toNat := by
  have hlarge : ¬ c.val.toNat ≤ 127 := h
  have hbyte : ∀ k m, 128 ≤ m → k + m < 256 → 128 ≤ (UInt8.ofNat (k + m)).toNat := by
    intro k m hm hlt
    rw [UInt8.toNat_ofNat']
    omega
  rw [String.utf8EncodeChar.eq_1, if_neg hlarge] at hx
  split at hx
  · simp only [List.mem_cons, List.not_mem_nil, or_false] at hx
    rcases hx with rfl | rfl <;> exact hbyte _ _ (by omega) (by omega)
  · split at hx
    · simp only [List.mem_cons, List.not_mem_nil, or_false] at hx
      rcases hx with rfl | rfl | rfl <;> exact hbyte _ _ (by omega) (by omega)
    · simp only [List.mem_cons, List.not_mem_nil, or_false] at hx
      rcases hx with rfl | rfl | rfl | rfl <;> exact hbyte _ _ (by omega) (by omega)

theorem toNat_toUInt8 (h : c.val ≤ 127) : c.toUInt8.toNat = c.val.toNat := by
  have hsmall : c.val.toNat ≤ 127 := h
  have hmod : c.toUInt8.toNat = c.val.toNat % 256 := UInt32.toNat_toUInt8 c.val
  omega

/-- The byte of a character below 128 is no byte of another character. -/
theorem toUInt8_notMem_utf8EncodeChar (hd : d.val ≤ 127) (hne : c ≠ d) :
    d.toUInt8 ∉ String.utf8EncodeChar c := by
  intro hmem
  have hbyte := toNat_toUInt8 hd
  by_cases hc : c.val ≤ 127
  · rw [utf8EncodeChar_of_le hc, List.mem_singleton] at hmem
    rw [hmem, toNat_toUInt8 hc] at hbyte
    exact hne (Char.ext (UInt32.toNat_inj.1 hbyte))
  · have hlarge := le_of_mem_utf8EncodeChar hc hmem
    have hsmall : d.val.toNat ≤ 127 := hd
    omega

/-- A text starts with such a character exactly if its bytes start with that
of the character. -/
theorem head?_bytes_eq_some_iff (hd : d.val ≤ 127) (s : List Char) :
    (bytes s).head? = some d.toUInt8 ↔ s.head? = some d := by
  cases s with
  | nil => simp
  | cons c s =>
    rw [List.head?_cons, Option.some.injEq]
    constructor
    · intro h
      by_contra hne
      obtain ⟨x, xs, hx⟩ := List.exists_cons_of_ne_nil (String.utf8EncodeChar_ne_nil (c := c))
      rw [bytes_cons, hx, List.cons_append, List.head?_cons, Option.some.injEq] at h
      exact toUInt8_notMem_utf8EncodeChar hd hne (by simp [hx, h])
    · rintro rfl
      rw [bytes_cons_of_le hd, List.head?_cons]

/-! ## Cuts -/

theorem cutAt?_cons (c : Char) (s : List Char) (n : Nat) :
    cutAt? (c.utf8Size + n) (c :: s) = (cutAt? n s).map fun (a, b) => (c :: a, b) := by
  obtain ⟨m, hm⟩ := Nat.exists_eq_succ_of_ne_zero (Nat.ne_of_gt c.utf8Size_pos)
  have hsum : c.utf8Size + n = (m + n) + 1 := by omega
  have hrest : m + n + 1 - c.utf8Size = n := by omega
  rw [hsum, cutAt?, if_pos (by omega), hrest]

/-- A text can be cut behind each of its beginnings. -/
theorem cutAt?_length (a b : List Char) : cutAt? (bytes a).length (a ++ b) = some (a, b) := by
  induction a with
  | nil => rw [bytes_nil, List.length_nil, List.nil_append, cutAt?]
  | cons c a ih =>
    rw [bytes_cons, List.length_append, String.length_utf8EncodeChar, List.cons_append,
      cutAt?_cons, ih, Option.map_some]

/-- And nowhere else. -/
theorem eq_append_of_cutAt? (h : cutAt? n s = some (a, b)) :
    s = a ++ b ∧ n = (bytes a).length := by
  induction s generalizing n a with
  | nil =>
    cases n with
    | zero =>
      cases h
      exact ⟨rfl, rfl⟩
    | succ n => cases h
  | cons c s ih =>
    cases n with
    | zero =>
      cases h
      exact ⟨rfl, rfl⟩
    | succ n =>
      rw [cutAt?] at h
      split at h
      · rename_i hsize
        obtain ⟨⟨a', b'⟩, hcut, heq⟩ := Option.map_eq_some_iff.1 h
        cases heq
        obtain ⟨rfl, hn⟩ := ih hcut
        refine ⟨rfl, ?_⟩
        rw [bytes_cons, List.length_append, String.length_utf8EncodeChar]
        omega
      · cases h

end Ambient.Text
