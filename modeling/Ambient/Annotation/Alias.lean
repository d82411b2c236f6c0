import Ambient.Table
import Ambient.Text.Search

/-!
# Aliases

Annotations use short names for some types. An alias stands on its own: the
text before it ends with no letter, digit or dot, and the text after it
starts with none of these and with no opening bracket. One pass replaces
the first alias of the expression, and of two that start at the same place
the one that comes first in the table. Passes are repeated until nothing is
left to replace, or until the limit, which only a table whose entries lead
back to each other reaches.
-/

namespace Ambient.Annotation

open Text

/-- The aliases in order, each with what it stands for. -/
abbrev Aliases := List (List Char × List Char)

/-- The aliases of a table. -/
def Aliases.ofTable (t : Table String) : Aliases :=
  t.entries.map fun (name, target) => (name.toList, target.toList)

/-- A character that continues a name. -/
def isTokenChar (c : Char) : Bool :=
  c.isAlphanum || c == '.'

/-- An alias may end before this text. -/
def endsAlias : List Char → Bool
  | [] => true
  | c :: _ => !isTokenChar c && c != '<'

/-- The text with the alias at its head replaced. -/
def aliasAt? (aliases : Aliases) (s : List Char) : Option (List Char) :=
  aliases.findSome? fun (name, target) =>
    (after? name s).bind fun rest => if endsAlias rest then some (target ++ rest) else none

/-- The text with its first alias replaced that has a character before it. -/
def aliasWithin? (aliases : Aliases) : List Char → Option (List Char)
  | [] => none
  | c :: s =>
    match if isTokenChar c then none else aliasAt? aliases s with
    | some s => some (c :: s)
    | none => (aliasWithin? aliases s).map (c :: ·)

/-- The text with its first alias replaced, none when it has no alias. -/
def substituteOnce? (aliases : Aliases) (s : List Char) : Option (List Char) :=
  (aliasAt? aliases s).or (aliasWithin? aliases s)

/-- The greatest number of passes. -/
def passLimit : Nat := 256

/-- The text after so many passes, or after the last that found an alias. -/
def substitutePasses (aliases : Aliases) : Nat → List Char → List Char
  | 0, s => s
  | passes + 1, s =>
    match substituteOnce? aliases s with
    | some s => substitutePasses aliases passes s
    | none => s

/-- The text with its aliases replaced. -/
def substitute (aliases : Aliases) (s : List Char) : List Char :=
  substitutePasses aliases passLimit s

theorem substituteOnce?_nil (s : List Char) : substituteOnce? [] s = none := by
  have : aliasWithin? [] s = none := by
    induction s with
    | nil => rfl
    | cons c s ih => simp [aliasWithin?, aliasAt?, ih]
  simp [substituteOnce?, aliasAt?, this]

/-- Without aliases nothing changes. -/
theorem substitute_nil (s : List Char) : substitute [] s = s := by
  simp [substitute, passLimit, substitutePasses, substituteOnce?_nil]

end Ambient.Annotation
