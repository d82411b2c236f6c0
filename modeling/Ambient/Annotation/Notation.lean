import Ambient.Text.Search

/-!
# From the notation of annotations to that of declarations

The single steps, each a function on texts: a nullable marker ends the
expression, a promise is qualified so that no namespace can shadow it, a
loose token becomes `unknown`, and a generic array becomes a postfix one.
-/

namespace Ambient.Annotation

open Text

/-! ## Nullable markers -/

/-- The text before the first question mark. -/
def beforeNullable (s : List Char) : List Char :=
  s.takeWhile (· ≠ '?')

/-! ## Promises -/

/-- `Promise` and its opening bracket. -/
def promiseOpen : List Char := "Promise<".toList

/-- What every promise becomes. -/
def globalPromise : List Char := "globalThis.Promise<".toList

/-- A character that cannot stand before a promise of its own. -/
def continuesPromise (c : Char) : Bool :=
  c.isAlphanum || c == '.' || c == '_'

/-- A promise with the character before it. -/
def promiseHit? : List Char → Option Hit
  | [] => none
  | c :: s =>
    if continuesPromise c then none
    else (after? promiseOpen s).map fun _ => ⟨c :: globalPromise, 1 + promiseOpen.length⟩

/-- The text with its promises qualified. A promise that opens right after
the bracket of another one has no character of its own before it. -/
def qualifyPromises (s : List Char) : List Char :=
  match after? promiseOpen s with
  | some rest => globalPromise ++ replaceEach promiseHit? 0 rest
  | none => replaceEach promiseHit? 0 s

/-! ## Loose tokens -/

/-- The type of a loose token. -/
def unknownType : List Char := "unknown".toList

/-- A character that joins a token to its surroundings. -/
def continuesLoose (c : Char) : Bool :=
  c.isAlpha || c == '.'

/-- The length of a loose token at the head of a text and what follows it. -/
def looseToken? (s : List Char) : Option (Nat × List Char) :=
  match after? ['v', 'a', 'r'] s with
  | some rest => some (3, rest)
  | none => (after? ['*'] s).map ((1, ·))

/-- A loose token at the head of a text, with the character after it. -/
def looseHead? (s : List Char) : Option Hit :=
  (looseToken? s).bind fun (size, rest) =>
    match rest with
    | [] => some ⟨unknownType, size⟩
    | d :: _ => if continuesLoose d then none else some ⟨unknownType ++ [d], size + 1⟩

/-- A loose token with the characters around it. -/
def looseHit? : List Char → Option Hit
  | [] => none
  | c :: s =>
    if continuesLoose c then none
    else (looseHead? s).map fun hit => ⟨c :: hit.replacement, hit.size + 1⟩

/-- One pass over the loose tokens. Two that share a character around them
take two passes. -/
def loosePass (s : List Char) : List Char :=
  match looseHead? s with
  | some hit => hit.replacement ++ replaceEach looseHit? hit.size s
  | none => replaceEach looseHit? 0 s

/-- The marks by which loose tokens are bounded: each pass that changes the
text removes one of them at least. -/
def looseMarks (s : List Char) : Nat :=
  s.countP fun c => c == 'v' || c == '*'

/-- The text after so many passes, or after the last that changed it. -/
def loosePasses : Nat → List Char → List Char
  | 0, s => s
  | passes + 1, s =>
    let t := loosePass s
    if t = s then s else loosePasses passes t

/-- The text with its loose tokens replaced. -/
def replaceLoose (s : List Char) : List Char :=
  loosePasses (looseMarks s) s

/-! ## Arrays -/

/-- `Array` and its opening bracket. -/
def arrayOpen : List Char := "Array<".toList

/-- The qualification of a class that only looks like the array type. -/
def dataNamespace : List Char := "qx.data.".toList

/-- The text up to the bracket that closes `depth + 1` open ones, and the
text after it. -/
def splitClosing (depth : Nat) : List Char → Option (List Char × List Char)
  | [] => none
  | c :: s =>
    if c = '>' ∧ depth = 0 then some ([], s)
    else
      let depth := if c = '<' then depth + 1 else if c = '>' then depth - 1 else depth
      (splitClosing depth s).map fun (a, b) => (c :: a, b)

/-- The closing bracket is one of the characters of the text. -/
theorem length_splitClosing {depth : Nat} {s a b : List Char}
    (h : splitClosing depth s = some (a, b)) : a.length + b.length + 1 = s.length := by
  induction s generalizing depth a b with
  | nil => simp [splitClosing] at h
  | cons c s ih =>
    rw [splitClosing] at h
    split at h
    · simp only [Option.some.injEq, Prod.mk.injEq] at h
      simp [← h.1, ← h.2]
    · obtain ⟨⟨a', b'⟩, h', he⟩ := Option.map_eq_some_iff.1 h
      simp only [Prod.mk.injEq] at he
      have := ih h'
      simp only [← he.1, ← he.2, List.length_cons]
      omega

/-- The text with its generic arrays as postfix ones, from the outside in.
`before` is the text before it on the same level, latest character first. -/
def bracketArrays (before : List Char) (s : List Char) : List Char :=
  match s with
  | [] => []
  | c :: t =>
    match _h : after? arrayOpen (c :: t) with
    | none => c :: bracketArrays (c :: before) t
    | some body =>
      if (after? dataNamespace.reverse before).isSome then
        arrayOpen ++ bracketArrays [] body
      else
        match _h' : splitClosing 0 body with
        | some (inner, rest) =>
          '(' :: bracketArrays [] inner ++ ")[]".toList ++ bracketArrays [] rest
        | none => arrayOpen ++ bracketArrays [] body
  termination_by s.length
  decreasing_by
    · simp
    all_goals
      have hs := congrArg List.length (after?_eq_some_iff.1 _h)
      simp only [List.length_append] at hs
      have ho : arrayOpen.length = 6 := by decide +kernel
    · omega
    · have := length_splitClosing _h'
      omega
    · have := length_splitClosing _h'
      omega
    · omega

end Ambient.Annotation
