import Ambient.Files.Path

/-!
# Links to source files

Every documented member links to the source file of its class. The link is
relative to the directory of the output file: as many steps up as that
directory has steps of its own, then down to the file.
-/

namespace Ambient

open Ambient.Path

/-- The directory of the output file, for an absolute working directory. -/
def outputDirectory (cwd output : String) : List Component :=
  let steps := components (join cwd output)
  if steps = [.root] then components cwd else steps.dropLast

/-- Both lists without what they have in common at their heads. -/
def dropCommon : List Component → List Component → List Component × List Component
  | a :: s, b :: t => if a = b then dropCommon s t else (a :: s, b :: t)
  | s, t => (s, t)

/-- The steps from one directory to a file. -/
def relativeSteps (directory target : List Component) : List Component :=
  let (own, rest) := dropCommon directory target
  own.map (fun _ => .up) ++ rest

/-- Steps as a link, with slashes only. -/
def linkText (steps : List Component) : String :=
  if steps.isEmpty then "."
  else String.ofList <|
    ("/".intercalate (steps.map Component.text)).toList.map fun c => if c = '\\' then '/' else c

/-- The link from the output file to a source file of the library. -/
def sourceLink (cwd output root file : String) : String :=
  linkText (relativeSteps (outputDirectory cwd output) (components (join (join cwd root) file)))

example : sourceLink "/w" "types/out.d.ts" "src" "a/B.js" = "../src/a/B.js" := by decide +kernel
example : sourceLink "/w" "out.d.ts" "src" "/w" = "." := by decide +kernel

end Ambient
