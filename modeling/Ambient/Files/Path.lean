/-!
# Paths

A path is kept as it is written, because messages and settings show it so.
What it means is the list of its components: repeated slashes and single
dots say nothing, and a leading slash is the root.
-/

namespace Ambient.Path

/-- One step of a path. -/
inductive Component where
  | root
  | up
  | name (name : String)
  deriving DecidableEq, Repr

/-- A component as written. The root is empty, so that joining components
with slashes starts an absolute path with one. -/
def Component.text : Component → String
  | .root => ""
  | .up => ".."
  | .name s => s

/-- The path starts at the root. -/
def isAbsolute (path : String) : Bool :=
  path.toList.head? = some '/'

/-- The texts between the slashes. -/
def segments (path : String) : List (List Char) :=
  path.toList.splitOn '/'

/-- A text between slashes that is no step at all. -/
def isIdle (segment : List Char) : Bool :=
  segment = [] || segment = ['.']

/-- The steps of a path. -/
def components (path : String) : List Component :=
  (if isAbsolute path then [.root] else []) ++
    ((segments path).filter fun s => !isIdle s).map fun s =>
      if s = ['.', '.'] then .up else .name (String.ofList s)

/-- `path` as seen from `base`. -/
def join (base path : String) : String :=
  if isAbsolute path then path
  else if base = "" ∨ base.toList.getLast? = some '/' then base ++ path
  else base ++ "/" ++ path

/-- The segments without the idle ones at the end. -/
def dropIdle (segments : List (List Char)) : List (List Char) :=
  (segments.reverse.dropWhile isIdle).reverse

/-- The text of segments. -/
def ofSegments (segments : List (List Char)) : String :=
  String.ofList (['/'].intercalate segments)

/-- The path without its last step, written as it was, or none when it has no
step to lose. A dot at the start of a path is a step of its own. -/
def parent? (path : String) : Option String :=
  match segments path with
  | [] => none
  | first :: rest =>
    match dropIdle rest with
    | [] => if first = [] then none else some ""
    | steps =>
      let kept := dropIdle steps.dropLast
      if first = [] ∧ kept = [] then some "/" else some (ofSegments (first :: kept))

/-- The segments before the last that is not empty, that segment, and whether a
slash follows it. -/
def splitLast (segments : List (List Char)) :
    Option (List (List Char) × List Char × Bool) :=
  let reversed := segments.reverse
  match reversed.dropWhile (· = []) with
  | [] => none
  | last :: before => some (before.reverse, last, before.length + 1 < segments.length)

/-- The last step of a path, if it is a name. -/
def fileName? (path : String) : Option String :=
  match (components path).getLast? with
  | some (.name s) => some s
  | _ => none

/-- What follows the last dot of the file name, unless nothing stands before
that dot. -/
def extension? (path : String) : Option String :=
  (fileName? path).bind fun s =>
    let name := s.toList
    let last := (name.reverse.takeWhile (· ≠ '.')).reverse
    if last.length + 1 < name.length then some (String.ofList last) else none

example : components "/a//./b/../c" =
    [.root, .name "a", .name "b", .up, .name "c"] := by decide +kernel
example : parent? "a/b" = some "a" ∧ parent? "a" = some "" ∧ parent? "" = none := by decide +kernel
example : parent? "./a//" = some "." ∧ parent? "//a" = some "/" ∧ parent? "/" = none := by
  decide +kernel
example : join "a" "" = "a/" ∧ join "a/" "b" = "a/b" ∧ join "a" "/b" = "/b" := by decide +kernel
example : extension? "a.json" = some "json" ∧ extension? ".json" = none ∧
    extension? "..json" = some "json" ∧ extension? "a" = none := by decide +kernel

end Ambient.Path
