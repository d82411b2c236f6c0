import Ambient.Text.Blank
import Ambient.Text.Search

/-!
# Documentation comments

The documentation of a member is copied line by line. Blank lines are left
out, links to members of the same class get the name of the class, and a
line that documents a parameter or a result loses its type expression,
since the declaration has the type.
-/

namespace Ambient.Doc

open Text

/-- The start of a link to a member of the same class. -/
def relativeLink : List Char := "\x7b@link #".toList

/-- A link to a member of the same class, at the head of a text. -/
def linkHit? (className : List Char) (s : List Char) : Option Hit :=
  (after? relativeLink s).bind fun rest =>
    let target := rest.takeWhile (· ≠ '\x7d')
    if target.isEmpty || target.length == rest.length then none
    else some ⟨"\x7b@link ".toList ++ className ++ '.' :: target ++ ['\x7d'],
      relativeLink.length + target.length + 1⟩

/-- The line with its relative links qualified. -/
def qualifyLinks (className line : List Char) : List Char :=
  replaceEach (linkHit? className) 0 line

/-- The parts of a line before and after its first brace that opens no inline
tag; the second part starts with that brace. -/
def splitTypeOpening : List Char → Option (List Char × List Char)
  | [] => none
  | c :: s =>
    if c = '\x7b' ∧ s.head? ≠ some '@' then some ([], c :: s)
    else (splitTypeOpening s).map fun (a, b) => (c :: a, b)

/-- What follows the brace that closes `depth + 1` open ones. -/
def afterClosing? (depth : Nat) : List Char → Option (List Char)
  | [] => none
  | c :: s =>
    if c = '\x7d' ∧ depth = 0 then some s
    else afterClosing? (if c = '\x7b' then depth + 1 else if c = '\x7d' then depth - 1 else depth) s

/-- The line without its first type expression, if it has one that is closed. -/
def stripTypeExpression (line : List Char) : List Char :=
  match splitTypeOpening line with
  | none => line
  | some (before, expression) =>
    match afterClosing? 0 expression.tail with
    | none => line
    | some after => trim before ++ ' ' :: trim after

/-- The line documents a parameter or a result. -/
def isTypedTag (line : List Char) : Bool :=
  contains "@param".toList line || contains "@return".toList line

/-- A line as the declaration has it. -/
def declaredLine (className line : List Char) : List Char :=
  let line := qualifyLinks className line
  trim (if isTypedTag line then stripTypeExpression line else line)

/-- The documentation of a member of the class. An entry may have several
lines. -/
def declaredLines (className : String) (entries : List String) : List String :=
  let lines := entries.flatMap fun e => e.toList.splitOn '\n'
  (lines.filter fun line => !isBlankText line).map fun line =>
    String.ofList (declaredLine className.toList line)

/-- The lines of a comment that ends with a link to the source file. -/
def block (indent : String) (lines : List String) (link : String) : String :=
  indent ++ "/**\n" ++
    String.join (lines.map fun line => indent ++ " " ++ line ++ "\n") ++
    (if lines.isEmpty then "" else indent ++ " *\n") ++
    indent ++ " * [source code](" ++ link ++ ")\n" ++
    indent ++ " */\n"

end Ambient.Doc
