import Ambient.Declaration.Method
import Ambient.Json.Token

/-!
# Member names read back

A member name stands in a declaration as it is, or between double quotes. A
reader of the declaration takes what stands between the quotes for a string
literal: a backslash begins an escape, a quote ends the literal, and a line
break is not admitted. The escapes are those of string literals in strict code,
and the value of a literal is a sequence of code units, as there.

An escape takes more room in the text than in the value (`length_value_le`), so
a literal whose value is as long as its text has no escape at all
(`exists_body_of_readLiteral`). A name is therefore read back exactly if nothing
in it ends the literal or begins an escape (`readName?_declaration_iff`).
-/

namespace Ambient.Literal

open Json

/-! ## Code units -/

/-- The code units of a code point: one, or a surrogate pair. -/
def codeUnits (n : Nat) : List Nat :=
  if n < 0x10000 then [n] else [0xD800 + (n - 0x10000) / 0x400, 0xDC00 + (n - 0x10000) % 0x400]

/-- The code units of a text. -/
def units (s : List Char) : List Nat := s.flatMap fun c => codeUnits c.toNat

@[simp] theorem units_nil : units [] = [] := rfl

@[simp] theorem units_cons (c : Char) (s : List Char) :
    units (c :: s) = codeUnits c.toNat ++ units s := rfl

@[simp] theorem units_append (s t : List Char) : units (s ++ t) = units s ++ units t :=
  List.flatMap_append

theorem length_codeUnits (n : Nat) : 1 ≤ (codeUnits n).length ∧ (codeUnits n).length ≤ 2 := by
  unfold codeUnits
  split <;> simp

/-- No character is empty. -/
theorem length_le_length_units (s : List Char) : s.length ≤ (units s).length := by
  induction s with
  | nil => simp
  | cons c s ih =>
    have hc := length_codeUnits c.toNat
    simp only [units_cons, List.length_append, List.length_cons]
    omega

/-- A character is known by its code units, whatever follows them: no character
is half of a surrogate pair. -/
theorem codeUnits_append_inj {c d : Char} {v w : List Nat}
    (h : codeUnits c.toNat ++ v = codeUnits d.toNat ++ w) : c = d ∧ v = w := by
  have hc := c.valid
  have hd := d.valid
  simp only [UInt32.isValidChar, Nat.isValidChar] at hc hd
  change c.toNat < 55296 ∨ 57343 < c.toNat ∧ c.toNat < 1114112 at hc
  change d.toNat < 55296 ∨ 57343 < d.toNat ∧ d.toNat < 1114112 at hd
  suffices hnat : c.toNat = d.toNat ∧ v = w from ⟨Char.toNat_inj.1 hnat.1, hnat.2⟩
  unfold codeUnits at h
  split at h <;> split at h
  all_goals
    simp only [List.cons_append, List.nil_append, List.cons.injEq] at h
  · exact h
  · omega
  · omega
  · obtain ⟨hlead, htrail, hrest⟩ := h
    exact ⟨by omega, hrest⟩

/-- **A text is known by its code units.** -/
theorem units_injective : Function.Injective units := by
  intro s t h
  induction s generalizing t with
  | nil =>
    have ht := length_le_length_units t
    rw [← h, units_nil, List.length_nil, Nat.le_zero, List.length_eq_zero_iff] at ht
    exact ht.symm
  | cons c s ih =>
    cases t with
    | nil =>
      have hs := length_le_length_units (c :: s)
      rw [h] at hs
      simp at hs
    | cons d t =>
      obtain ⟨rfl, hrest⟩ := codeUnits_append_inj h
      rw [ih hrest]

/-! ## Escapes -/

/-- An escape: its value, and how many characters it has behind the backslash. -/
structure Escape where
  value : List Nat
  size : Nat
  deriving DecidableEq, Repr

/-- The number of hexadecimal digits. -/
def hexValue? (digits : List Char) : Option Nat :=
  digits.foldlM (fun n c => (hexDigit? c).map (16 * n + ·)) 0

/-- The number of as many hexadecimal digits at the head of a text. -/
def fixedHex? (count : Nat) (s : List Char) : Option Nat :=
  if (s.take count).length = count then hexValue? (s.take count) else none

/-- The code point between braces, of which the first is read, and the number
of its digits. -/
def bracedHex? (s : List Char) : Option (Nat × Nat) :=
  let digits := s.takeWhile (· ≠ '\x7d')
  if digits = [] ∨ digits.length = s.length then none
  else (hexValue? digits).bind fun n => if n ≤ 0x10FFFF then some (n, digits.length) else none

/-- The characters at which a line ends. -/
def endsLine (c : Char) : Bool :=
  c = '\n' || c = '\r' || c = '\u2028' || c = '\u2029'

/-- The character that a letter stands for behind a backslash. -/
def escapedChar (c : Char) : Char :=
  match c with
  | 'b' => '\x08'
  | 't' => '\t'
  | 'n' => '\n'
  | 'v' => '\x0b'
  | 'f' => '\x0c'
  | 'r' => '\r'
  | c => c

/-- The escape behind a backslash. The end of a line is passed over. A digit
begins no escape, but for a zero that no other digit follows. -/
def escape? : List Char → Option Escape
  | [] => none
  | 'x' :: s => (fixedHex? 2 s).map fun n => ⟨[n], 3⟩
  | 'u' :: '\x7b' :: s => (bracedHex? s).map fun (n, count) => ⟨codeUnits n, count + 3⟩
  | 'u' :: s => (fixedHex? 4 s).map fun n => ⟨[n], 5⟩
  | '0' :: s => if s.head?.any Char.isDigit then none else some ⟨[0], 1⟩
  | '\r' :: '\n' :: _ => some ⟨[], 2⟩
  | c :: _ =>
    if endsLine c then some ⟨[], 1⟩
    else if c.isDigit then none
    else some ⟨codeUnits (escapedChar c).toNat, 1⟩

/-- A letter stands for one code unit, and everything else for itself. -/
theorem length_codeUnits_escapedChar (c : Char) :
    (codeUnits (escapedChar c).toNat).length ≤ (codeUnits c.toNat).length := by
  unfold escapedChar
  split
  case h_7 => exact Nat.le_refl _
  all_goals decide

/-- **An escape takes no less room in the text than in the value.** -/
theorem length_value_le {s : List Char} {e : Escape} (h : escape? s = some e) :
    e.value.length ≤ (units (s.take e.size)).length := by
  -- the first character behind the backslash has room for one code unit
  have hfirst (c : Char) (s : List Char) (n : Nat) : 1 ≤ (units ((c :: s).take (n + 1))).length := by
    have hc := (length_codeUnits c.toNat).1
    rw [List.take_succ_cons, units_cons, List.length_append]
    omega
  unfold escape? at h
  split at h
  · cases h
  · obtain ⟨n, -, rfl⟩ := Option.map_eq_some_iff.1 h
    exact hfirst _ _ _
  · -- the braces are room for a second one
    obtain ⟨⟨n, count⟩, -, rfl⟩ := Option.map_eq_some_iff.1 h
    have hvalue := (length_codeUnits n).2
    have hu := (length_codeUnits 'u'.toNat).1
    have hbrace := (length_codeUnits '\x7b'.toNat).1
    simp only [List.take_succ_cons, units_cons, List.length_append]
    omega
  · obtain ⟨n, -, rfl⟩ := Option.map_eq_some_iff.1 h
    exact hfirst _ _ _
  · split at h
    · cases h
    · cases h
      exact hfirst _ _ _
  · cases h
    exact Nat.zero_le _
  · split at h
    · cases h
      exact Nat.zero_le _
    · split at h
      · cases h
      · cases h
        rw [List.take_succ_cons, List.take_zero, units_cons, units_nil, List.append_nil]
        exact length_codeUnits_escapedChar _

/-! ## Literals -/

/-- The value of a string literal whose first quote is read, and the text behind
its last. The first argument counts the characters at the head that belong to an
escape already read. -/
def readLiteral : Nat → List Char → Option (List Nat × List Char)
  | _, [] => none
  | covered + 1, _ :: s => readLiteral covered s
  | 0, c :: s =>
    if c = '"' then some ([], s)
    else if c = '\\' then
      (escape? s).bind fun e => (readLiteral e.size s).map fun (v, r) => (e.value ++ v, r)
    else if c = '\n' ∨ c = '\r' then none
    else (readLiteral 0 s).map fun (v, r) => (codeUnits c.toNat ++ v, r)

/-- A character that stands for itself between double quotes. -/
def isBare (c : Char) : Bool :=
  c ≠ '"' && c ≠ '\\' && c ≠ '\n' && c ≠ '\r'

theorem isBare_iff {c : Char} : isBare c ↔ c ≠ '"' ∧ c ≠ '\\' ∧ c ≠ '\n' ∧ c ≠ '\r' := by
  simp [isBare, and_assoc]

variable {s r rest body : List Char} {v : List Nat} {c : Char} {covered : Nat}

/-- A bare character is read as itself. -/
theorem readLiteral_cons_of_isBare (hc : isBare c) (s : List Char) :
    readLiteral 0 (c :: s) = (readLiteral 0 s).map fun (v, r) => (codeUnits c.toNat ++ v, r) := by
  obtain ⟨hquote, hescape, hlf, hcr⟩ := isBare_iff.1 hc
  rw [readLiteral, if_neg hquote, if_neg hescape, if_neg (by simp [hlf, hcr])]

/-- Bare characters are read as themselves, up to the quote. -/
theorem readLiteral_append_quote (hs : ∀ c ∈ s, isBare c) (rest : List Char) :
    readLiteral 0 (s ++ '"' :: rest) = some (units s, rest) := by
  induction s with
  | nil => rfl
  | cons c s ih =>
    obtain ⟨hc, hs⟩ := List.forall_mem_cons.1 hs
    rw [List.cons_append, readLiteral_cons_of_isBare hc, ih hs]
    rfl

/-- **What is read of a literal** ends at a quote, and its value is no longer
than its text; as long it is only if every character stands for itself. -/
theorem exists_body_of_readLiteral (h : readLiteral covered s = some (v, r)) :
    ∃ body, s = body ++ '"' :: r ∧ covered ≤ body.length ∧
      v.length ≤ (units (body.drop covered)).length ∧
      (v.length = (units (body.drop covered)).length → ∀ c ∈ body.drop covered, isBare c) := by
  induction s generalizing covered v with
  | nil => cases h
  | cons c s ih =>
    cases covered with
    | succ covered =>
      obtain ⟨body, rfl, hcovered, hlength, hbare⟩ := ih h
      exact ⟨c :: body, rfl, Nat.succ_le_succ hcovered, hlength, hbare⟩
    | zero =>
      rw [readLiteral] at h
      split at h
      · rename_i hquote
        cases h
        exact ⟨[], by rw [hquote]; rfl, Nat.le_refl _, Nat.le_refl _, by simp⟩
      split at h
      · -- an escape: the backslash is one unit more than its value has
        obtain ⟨e, he, h⟩ := Option.bind_eq_some_iff.1 h
        obtain ⟨⟨w, _⟩, hw, hpair⟩ := Option.map_eq_some_iff.1 h
        cases hpair
        obtain ⟨body, rfl, hcovered, hlength, -⟩ := ih hw
        have hvalue := length_value_le he
        rw [List.take_append_of_le_length hcovered] at hvalue
        have hbackslash := (length_codeUnits c.toNat).1
        have hshorter : (e.value ++ w).length < (units (c :: body)).length := by
          have hsplit : units body = units (body.take e.size) ++ units (body.drop e.size) := by
            rw [← units_append, List.take_append_drop]
          rw [units_cons, hsplit]
          simp only [List.length_append]
          omega
        exact ⟨c :: body, rfl, Nat.zero_le _, Nat.le_of_lt hshorter,
          fun heq => absurd heq (Nat.ne_of_lt hshorter)⟩
      split at h
      · cases h
      · rename_i hquote hescape hend
        obtain ⟨⟨w, _⟩, hw, hpair⟩ := Option.map_eq_some_iff.1 h
        cases hpair
        obtain ⟨body, rfl, -, hlength, hbare⟩ := ih hw
        rw [List.drop_zero] at hlength hbare
        refine ⟨c :: body, rfl, Nat.zero_le _, ?_, fun heq => ?_⟩
        · simp only [List.drop_zero, units_cons, List.length_append]
          omega
        · simp only [List.drop_zero, units_cons, List.length_append] at heq
          have hc : isBare c := isBare_iff.2 ⟨hquote, hescape, fun h => hend (.inl h),
            fun h => hend (.inr h)⟩
          exact List.forall_mem_cons.2 ⟨hc, hbare (by omega)⟩

/-- **Which texts a literal can have as they are.** -/
theorem readLiteral_eq_units_iff :
    readLiteral 0 (s ++ '"' :: rest) = some (units s, rest) ↔ ∀ c ∈ s, isBare c := by
  constructor
  · intro h
    obtain ⟨body, hbody, -, -, hbare⟩ := exists_body_of_readLiteral h
    obtain rfl : s = body := List.append_cancel_right hbody
    exact hbare rfl
  · intro h
    exact readLiteral_append_quote h rest

end Ambient.Literal

namespace Ambient

open Literal

/-! ## Names -/

/-- The value of the name at the head of a text, in code units, and the text
behind it. A name without quotes is a plain identifier and denotes itself. -/
def readName? : List Char → Option (List Nat × List Char)
  | '"' :: s => readLiteral 0 s
  | s =>
    let name := s.takeWhile isIdentifierChar
    if isPlainIdentifier (String.ofList name) then some (units name, s.drop name.length) else none

variable {name : String} {rest : List Char} {c : Char}

theorem isIdentifierChar_of_isIdentifierStart (h : isIdentifierStart c) : isIdentifierChar c := by
  simp only [isIdentifierStart, isIdentifierChar, Char.isAlphanum, Bool.or_eq_true] at h ⊢
  exact h.imp_left .inl

/-- No character of an identifier ends a literal or begins an escape. -/
theorem isBare_of_isIdentifierChar (h : isIdentifierChar c) : isBare c := by
  refine isBare_iff.2 ⟨?_, ?_, ?_, ?_⟩
  all_goals
    rintro rfl
    revert h
    decide

/-- A plain identifier has a first character, and identifier characters only. -/
theorem isIdentifierChar_of_mem (h : isPlainIdentifier name) :
    name.toList ≠ [] ∧ ∀ c ∈ name.toList, isIdentifierChar c := by
  rw [isPlainIdentifier] at h
  split at h
  · cases h
  · rename_i c s hname
    rw [Bool.and_eq_true, List.all_eq_true] at h
    rw [hname, List.forall_mem_cons]
    exact ⟨List.cons_ne_nil _ _, isIdentifierChar_of_isIdentifierStart h.1, h.2⟩

/-- A plain identifier is read up to the parenthesis. -/
theorem readName?_of_isPlainIdentifier (h : isPlainIdentifier name) :
    readName? (name.toList ++ '(' :: rest) = some (units name.toList, '(' :: rest) := by
  obtain ⟨hne, hchars⟩ := isIdentifierChar_of_mem h
  have htake : (name.toList ++ '(' :: rest).takeWhile isIdentifierChar = name.toList := by
    rw [List.takeWhile_append_of_pos hchars, List.takeWhile_cons_of_neg (by decide),
      List.append_nil]
  unfold readName?
  split
  · rename_i s hquote
    -- a quote is no character of an identifier
    obtain ⟨c, s', hname⟩ := List.exists_cons_of_ne_nil hne
    rw [hname, List.cons_append, List.cons.injEq] at hquote
    have hc := hchars c (hname ▸ List.mem_cons_self)
    rw [hquote.1] at hc
    cases hc
  · simp only [htake, String.ofList_toList, List.drop_left]
    exact if_pos h

theorem toList_memberName_of_not_isPlainIdentifier (h : isPlainIdentifier name = false) :
    (memberName name).toList = '"' :: (name.toList ++ ['"']) := by
  simp [memberName, h]

/-- Different names are printed differently: what is not quoted has no quote. -/
theorem memberName_injective : Function.Injective memberName := by
  have hquoted {a b : String} (ha : isPlainIdentifier a) (hb : isPlainIdentifier b = false) :
      memberName a ≠ memberName b := by
    intro h
    have hmem : '"' ∈ (memberName a).toList := by
      rw [h, toList_memberName_of_not_isPlainIdentifier hb]
      exact List.mem_cons_self
    rw [memberName, if_pos ha] at hmem
    exact absurd ((isIdentifierChar_of_mem ha).2 _ hmem) (by decide)
  intro a b h
  cases ha : isPlainIdentifier a <;> cases hb : isPlainIdentifier b
  · have hlist := congrArg String.toList h
    rw [toList_memberName_of_not_isPlainIdentifier ha,
      toList_memberName_of_not_isPlainIdentifier hb, List.cons.injEq] at hlist
    exact String.toList_inj.1 (List.append_cancel_right hlist.2)
  · exact absurd h.symm (hquoted hb ha)
  · exact absurd h (hquoted ha hb)
  · simpa [memberName, ha, hb] using h

/-- **Which printed names denote the name.** Quoted or not, it is read back
exactly if every character of it stands for itself between quotes. -/
theorem readName?_memberName_iff :
    readName? ((memberName name).toList ++ '(' :: rest) =
        some (units name.toList, '(' :: rest) ↔ ∀ c ∈ name.toList, isBare c := by
  cases h : isPlainIdentifier name with
  | true =>
    rw [memberName, if_pos h]
    exact iff_of_true (readName?_of_isPlainIdentifier h) fun c hc =>
      isBare_of_isIdentifierChar ((isIdentifierChar_of_mem h).2 c hc)
  | false =>
    rw [toList_memberName_of_not_isPlainIdentifier h, List.cons_append, List.append_assoc]
    exact readLiteral_eq_units_iff

namespace Method

/-- The words before the name in a declaration. -/
def modifiers (m : Method) : String :=
  m.access.word ++ (if m.isStatic then "static " else "") ++
    (if m.isAbstract then "abstract " else "") ++ (if m.isOverride then "override " else "")

/-- What follows the name in a declaration. -/
def signature (m : Method) : String :=
  "(" ++ m.params ++ "): " ++ m.returnType ++ ";"

theorem declaration_eq (m : Method) :
    m.declaration = m.modifiers ++ (memberName m.name ++ m.signature) := by
  simp only [declaration, modifiers, signature, String.append_assoc]

/-- **A declared name is read back** from the declaration, where it stands
between the modifiers and the signature, exactly if nothing in it ends the
literal or begins an escape. The value is that of no other name, and no other
name is printed so. -/
theorem readName?_declaration_iff (m : Method) :
    m.declaration = m.modifiers ++ (memberName m.name ++ m.signature) ∧
      (isPlainIdentifier m.name → memberName m.name = m.name) ∧
      (readName? (memberName m.name ++ m.signature).toList =
          some (units m.name.toList, m.signature.toList) ↔ ∀ c ∈ m.name.toList, isBare c) ∧
      (∀ other : String, units other.toList = units m.name.toList → other = m.name) ∧
      ∀ other : String, memberName other = memberName m.name → other = m.name := by
  refine ⟨m.declaration_eq, fun h => if_pos h, ?_, fun other h => ?_, fun other h =>
    memberName_injective h⟩
  · have hsignature : ∃ rest, m.signature.toList = '(' :: rest := by
      simp [signature]
    obtain ⟨rest, hrest⟩ := hsignature
    rw [String.toList_append, hrest]
    exact readName?_memberName_iff
  · exact String.toList_inj.1 (units_injective h)

end Method

/-! ## A name with quotes -/

/-- A method whose name has quotes. -/
def quotingMethod : Method :=
  ⟨"say \"hi\"", .unspecified, false, false, false, false, "", "string", []⟩

/-- **A quote in a name ends the literal**: behind the value `say ` the reader
finds a word where the parenthesis should be. -/
theorem readName?_quotingMethod_ne :
    quotingMethod.declaration = "\"say \"hi\"\"(): string;" ∧
      readName? quotingMethod.declaration.toList =
        some (units "say ".toList, "hi\"\"(): string;".toList) ∧
      readName? quotingMethod.declaration.toList ≠
        some (units quotingMethod.name.toList, quotingMethod.signature.toList) := by
  decide +kernel

end Ambient
