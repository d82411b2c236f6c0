import Ambient.Json.Numeral

/-!
# Tokens of JSON text

The tokens are read by a machine that takes one character at a time.
Where the text breaks the rules of its tokens the machine emits `fault`
and reads no further, so the tokens before the first fault are always
there to be decoded.

A string may name half of a surrogate pair. It is a token all the same,
one without a text (`string none`): whether that is a fault depends on
whether anyone asks for the text.
-/

namespace Ambient.Json

/-- A token; `fault` stands for the point where the text stops being JSON. -/
inductive Token where
  | openArray
  | closeArray
  | openObject
  | closeObject
  | comma
  | colon
  | null
  | bool (value : Bool)
  | number (numeral : Numeral)
  | string (text : Option String)
  | fault
  deriving DecidableEq, Repr

/-! ## Strings under construction -/

/-- The part of a string read so far, latest character first. -/
structure Draft where
  chars : List Char
  /-- A leading surrogate whose partner has to follow at once. -/
  lead : Option Nat
  /-- No surrogate has been left without its partner. -/
  paired : Bool
  deriving DecidableEq, Repr

namespace Draft

/-- The string of which nothing has been read. -/
def start : Draft := ⟨[], none, true⟩

/-- A character that is not half of a pair. -/
def push (d : Draft) (c : Char) : Draft :=
  ⟨c :: d.chars, none, d.paired && d.lead.isNone⟩

/-- A code given by an escape: a character or half of a surrogate pair. -/
def pushUnit (d : Draft) (code : Nat) : Draft :=
  let isLead := 0xD800 ≤ code && code < 0xDC00
  let isTrail := 0xDC00 ≤ code && code < 0xE000
  match d.lead with
  | some lead =>
    if isTrail then
      ⟨Char.ofNat (0x10000 + 0x400 * (lead - 0xD800) + (code - 0xDC00)) :: d.chars, none, d.paired⟩
    else ⟨d.chars, none, false⟩
  | none =>
    if isLead then ⟨d.chars, some code, d.paired⟩
    else if isTrail then ⟨d.chars, none, false⟩
    else d.push (Char.ofNat code)

/-- The text of the string, if every surrogate found its partner. -/
def finish (d : Draft) : Option String :=
  if d.paired && d.lead.isNone then some (String.ofList d.chars.reverse) else none

end Draft

/-! ## The machine -/

/-- Where a numeral stands between two of its characters. -/
inductive Phase where
  | sign
  | zero
  | whole
  | point
  | fraction
  | mark
  | markSign
  | power
  deriving DecidableEq, Repr

/-- Where the machine stands between two characters. -/
inductive Mode where
  | between
  /-- Inside `null`, `true` or `false`, with the letters still to come. -/
  | word (token : Token) (letters : List Char)
  | text (draft : Draft)
  | escape (draft : Draft)
  /-- Inside a `\u` escape, with the digits still to come and the code so far. -/
  | unit (draft : Draft) (left : Nat) (code : Nat)
  /-- Inside a numeral, whose digits are kept latest first. -/
  | number (numeral : Numeral) (phase : Phase)
  | stuck
  deriving DecidableEq, Repr

/-- The tokens emitted so far, latest first, and the mode. -/
structure Lexer where
  tokens : List Token
  mode : Mode

/-- The characters that may stand between tokens. -/
def isGap (c : Char) : Bool :=
  c == ' ' || c == '\t' || c == '\n' || c == '\r'

/-- The value of a digit. -/
def digit? (c : Char) : Option Nat :=
  if c.isDigit then some (c.toNat - '0'.toNat) else none

/-- The value of a hexadecimal digit, in either case. -/
def hexDigit? (c : Char) : Option Nat :=
  if c.isDigit then some (c.toNat - '0'.toNat)
  else if 'a' ≤ c && c ≤ 'f' then some (c.toNat - 'a'.toNat + 10)
  else if 'A' ≤ c && c ≤ 'F' then some (c.toNat - 'A'.toNat + 10)
  else none

/-- The character of a one-letter escape. -/
def escaped? (c : Char) : Option Char :=
  match c with
  | '"' => some '"'
  | '\\' => some '\\'
  | '/' => some '/'
  | 'b' => some '\x08'
  | 'f' => some '\x0c'
  | 'n' => some '\n'
  | 'r' => some '\r'
  | 't' => some '\t'
  | _ => none

namespace Numeral

/-- A numeral whose digits are kept latest first, with its digits in order. -/
def inOrder (n : Numeral) : Numeral :=
  ⟨n.negative, n.whole.reverse, n.fraction.reverse,
    n.exponent.map fun (negative, digits) => (negative, digits.reverse)⟩

/-- One more digit of the exponent. -/
def pushPower (n : Numeral) (d : Nat) : Numeral :=
  match n.exponent with
  | none => { n with exponent := some (false, [d]) }
  | some (negative, digits) => { n with exponent := some (negative, d :: digits) }

end Numeral

/-- A numeral may end in this phase. -/
def Phase.complete : Phase → Bool
  | .zero | .whole | .fraction | .power => true
  | .sign | .point | .mark | .markSign => false

/-- The numeral and its phase after one more character, if the character
continues it. -/
def Phase.next? (n : Numeral) (c : Char) : Phase → Option (Numeral × Phase)
  | .sign => (digit? c).map fun d => ({ n with whole := [d] }, if d = 0 then .zero else .whole)
  | .zero => afterWhole
  | .whole =>
    match digit? c with
    | some d => some ({ n with whole := d :: n.whole }, .whole)
    | none => afterWhole
  | .point => (digit? c).map fun d => ({ n with fraction := [d] }, .fraction)
  | .fraction =>
    match digit? c with
    | some d => some ({ n with fraction := d :: n.fraction }, .fraction)
    | none => afterFraction
  | .mark =>
    if c = '+' then some ({ n with exponent := some (false, []) }, .markSign)
    else if c = '-' then some ({ n with exponent := some (true, []) }, .markSign)
    else (digit? c).map fun d => (n.pushPower d, .power)
  | .markSign | .power => (digit? c).map fun d => (n.pushPower d, .power)
where
  afterFraction : Option (Numeral × Phase) :=
    if c = 'e' ∨ c = 'E' then some (n, .mark) else none
  afterWhole : Option (Numeral × Phase) :=
    if c = '.' then some (n, .point) else afterFraction

namespace Lexer

/-- The machine before the first character. -/
def start : Lexer := ⟨[], .between⟩

/-- One more token. -/
def emit (m : Lexer) (t : Token) : Lexer := ⟨t :: m.tokens, .between⟩

/-- The text breaks here. -/
def fail (m : Lexer) : Lexer := ⟨.fault :: m.tokens, .stuck⟩

/-- A character outside of all tokens. -/
def stepBetween (m : Lexer) (c : Char) : Lexer :=
  if isGap c then m
  else match c with
    | '[' => m.emit .openArray
    | ']' => m.emit .closeArray
    | '\x7b' => m.emit .openObject
    | '\x7d' => m.emit .closeObject
    | ',' => m.emit .comma
    | ':' => m.emit .colon
    | '"' => ⟨m.tokens, .text .start⟩
    | 'n' => ⟨m.tokens, .word .null ['u', 'l', 'l']⟩
    | 't' => ⟨m.tokens, .word (.bool true) ['r', 'u', 'e']⟩
    | 'f' => ⟨m.tokens, .word (.bool false) ['a', 'l', 's', 'e']⟩
    | '-' => ⟨m.tokens, .number ⟨true, [], [], none⟩ .sign⟩
    | _ =>
      match Phase.next? ⟨false, [], [], none⟩ c .sign with
      | some (n, phase) => ⟨m.tokens, .number n phase⟩
      | none => m.fail

/-- One character. A numeral has no end of its own: the first character
that does not continue it ends it and is then read by itself, but a digit
after a leading zero is a fault. -/
def step (m : Lexer) (c : Char) : Lexer :=
  match m.mode with
  | .stuck => m
  | .between => m.stepBetween c
  | .word t [] => (m.emit t).stepBetween c
  | .word t (l :: letters) =>
    if c ≠ l then m.fail
    else if letters.isEmpty then m.emit t
    else ⟨m.tokens, .word t letters⟩
  | .text d =>
    if c = '"' then m.emit (.string d.finish)
    else if c = '\\' then ⟨m.tokens, .escape d⟩
    else if c.toNat < 0x20 then m.fail
    else ⟨m.tokens, .text (d.push c)⟩
  | .escape d =>
    if c = 'u' then ⟨m.tokens, .unit d 3 0⟩
    else match escaped? c with
      | some e => ⟨m.tokens, .text (d.push e)⟩
      | none => m.fail
  | .unit d left code =>
    match hexDigit? c, left with
    | none, _ => m.fail
    | some h, 0 => ⟨m.tokens, .text (d.pushUnit (16 * code + h))⟩
    | some h, left + 1 => ⟨m.tokens, .unit d left (16 * code + h)⟩
  | .number n phase =>
    match phase.next? n c with
    | some (n, phase) => ⟨m.tokens, .number n phase⟩
    | none =>
      if !phase.complete || (phase == .zero && c.isDigit) then m.fail
      else (m.emit (.number n.inOrder)).stepBetween c

/-- The end of the text: a token that is not complete is a fault. -/
def finish (m : Lexer) : List Token :=
  match m.mode with
  | .between | .stuck => m.tokens.reverse
  | .number n phase =>
    if phase.complete then (Token.number n.inOrder :: m.tokens).reverse
    else (Token.fault :: m.tokens).reverse
  | .word _ _ | .text _ | .escape _ | .unit _ _ _ => (Token.fault :: m.tokens).reverse

end Lexer

/-- The tokens of a text, up to the first fault. -/
def tokens (text : String) : List Token :=
  (text.toList.foldl Lexer.step Lexer.start).finish

example : tokens "[1, -2.5e3]" =
    [.openArray, .number ⟨false, [1], [], none⟩, .comma,
      .number ⟨true, [2], [5], some (false, [3])⟩, .closeArray] := by decide +kernel
example : tokens "01" = [.fault] := by decide +kernel
example : tokens "\"\\ud83d\\ude00\"" = [.string (some "😀")] := by decide +kernel

end Ambient.Json
