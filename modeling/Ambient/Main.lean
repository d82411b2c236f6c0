import Ambient.Command.Clock
import Ambient.Command.Program

/-!
# The executable

The program runs on a value: the part of the file system that a command can
look at is read into a file tree first, and the output file is written back
when the run has changed it.
-/

namespace Ambient

/-- What stands at a path, with everything below it but links. A link is
followed only at the path itself, since a walk passes over those it meets. -/
partial def readEntry (path : String) : IO (Option Entry) := do
  try
    let place ← IO.FS.realPath path
    match (← place.metadata).type with
    | .dir =>
      let children ← (← place.readDir).toList.filterMapM fun child => do
        if (← child.path.symlinkMetadata).type == .symlink then return none
        return (← readEntry child.path.toString).map fun e => (child.fileName, e)
      return some (.folder children)
    | .file => return some (.file (← IO.FS.readBinFile place))
    | _ => return some .nullDevice
  catch _ => return none

/-- The tree with what stands at a path, and with the folders that lead there. -/
def readInto (fs : FileSystem) (path : String) : IO FileSystem := do
  let location := fs.locationOf path
  let mut fs := fs
  for count in List.range location.length do
    let above := "/" ++ "/".intercalate (location.take count)
    try
      if (← (← IO.FS.realPath above).metadata).type == .dir then
        fs := fs.put above (.folder [])
      else
        fs := fs.put above (.file ByteArray.empty)
    catch _ => pure ()
  match ← readEntry path with
  | some e => return fs.put path e
  | none => return fs

/-- The paths that a command reads before it knows its configuration. -/
def Command.inputs : Command → List String
  | .generate args => args.metaDir.toList ++ args.settings.toList
  | .mapType args => args.metaDir.toList ++ args.settings.toList

/-- The paths that a command reads or writes once it knows its configuration. -/
def Command.outputs (command : Command) (fs : FileSystem) : List String :=
  match command with
  | .mapType _ => []
  | .generate args =>
    match loadConfig fs args.settings with
    | .error _ => []
    | .ok config =>
      let config := args.apply config
      config.output :: config.baseTemplate.toList

/-- The bytes of the file at a path. -/
def FileSystem.content? (fs : FileSystem) (path : String) : Option ByteArray :=
  match fs.entry path with
  | .ok (.file content) => some content
  | _ => none

/-- The time of the clock, which is the time of a file made now. -/
def clock : IO String := do
  let (_, path) ← IO.FS.createTempFile
  let time := (← path.metadata).modified
  IO.FS.removeFile path
  return timeText time.sec

/-- A tree with nothing in it but the working directory, and not even that if
it was removed. -/
def emptyTree : IO FileSystem := do
  try
    let cwd := (← IO.currentDir).toString
    let fs : FileSystem := { root := .folder [], cwd := (cwd.splitOn "/").filter (· ≠ "") }
    return fs.put cwd (.folder [])
  catch _ => return { root := .folder [], cwd := [""] }

/-- Runs a command line on the real file system. The search for the aliases is
the program's own, and none is refused. -/
def runOnDisk (args : List String) : IO UInt32 := do
  let mut fs ← emptyTree
  let mut written : List String := []
  if let .ok command := CommandLine.parse args then
    for path in command.inputs do
      fs ← readInto fs path
    written := command.outputs fs
    for path in written do
      fs ← readInto fs path
  let outcome := run args { now := ← clock, refusal? := fun _ => none } fs
  for path in written do
    if let some content := outcome.fs.content? path then
      if fs.content? path != some content then
        IO.FS.writeBinFile path content
  IO.print outcome.stdout
  IO.eprint outcome.stderr
  return outcome.exitCode.toUInt32

end Ambient

/-- Runs the program. -/
def main (args : List String) : IO UInt32 :=
  Ambient.runOnDisk args
