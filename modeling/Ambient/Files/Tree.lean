import Ambient.Files.Path
import Ambient.Table

/-!
# File trees

A file tree is a value: folders by name, files with their bytes, and the
two devices that a test of failing output needs. Paths are followed from
the root or from the working directory, step by step, and every step needs
a folder to step from. A working directory that was removed is a place where
nothing stands: it can no longer be determined, and no relative path leads
anywhere. There are no links in a tree, since a walk passes over them.
-/

namespace Ambient

/-- What stands at a place in a file tree. -/
inductive Entry where
  | file (content : ByteArray)
  | folder (children : List (String × Entry))
  /-- Takes everything that is written to it. -/
  | nullDevice
  /-- Has no space left for anything. -/
  | fullDevice

instance : Inhabited Entry := ⟨.folder []⟩

/-- Why the system refuses an operation. -/
inductive OsError where
  | notFound
  | notDirectory
  | isDirectory
  | invalidArgument
  | noSpace
  | notText
  | nulByte
  deriving DecidableEq, Repr

/-- The wording of a refusal. -/
def OsError.message : OsError → String
  | .notFound => "No such file or directory (os error 2)"
  | .notDirectory => "Not a directory (os error 20)"
  | .isDirectory => "Is a directory (os error 21)"
  | .invalidArgument => "Invalid argument (os error 22)"
  | .noSpace => "No space left on device (os error 28)"
  | .notText => "stream did not contain valid UTF-8"
  | .nulByte => "file name contained an unexpected NUL byte"

/-- A place in a file tree: the names of the folders that lead to it. -/
abbrev Location := List String

namespace Entry

/-- The entry of this name in a folder. -/
def child? (e : Entry) (name : String) : Option Entry :=
  match e with
  | .folder children => children.lookup name
  | _ => none

/-- The entry at a location below this one. -/
def get? (e : Entry) : Location → Option Entry
  | [] => some e
  | name :: rest => (e.child? name).bind (·.get? rest)

/-- The children of a folder; anything else has none. -/
def children : Entry → List (String × Entry)
  | .folder cs => cs
  | _ => []

/-- The tree with `new` at a location; what leads there becomes a folder if it
is none. -/
def set (e : Entry) (location : Location) (new : Entry) : Entry :=
  match location with
  | [] => new
  | name :: rest =>
    .folder (upsert name (((e.child? name).getD (.folder [])).set rest new) e.children)

/-- What was set at a location stands there. -/
theorem get?_set_self (e : Entry) (location : Location) (new : Entry) :
    (e.set location new).get? location = some new := by
  induction location generalizing e with
  | nil => rfl
  | cons name rest ih => simp [set, get?, child?, lookup_upsert, ih]

mutual

/-- The regular files at and below an entry, each with its path: depth first,
the entries of a folder in the order of their names. -/
def files (path : String) : Entry → List (String × ByteArray)
  | .file content => [(path, content)]
  | .folder children =>
    ((filesOfChildren path children).mergeSort fun a b => decide (a.1 ≤ b.1)).flatMap (·.2)
  | .nullDevice => []
  | .fullDevice => []

/-- The files below each child of a folder. -/
def filesOfChildren (path : String) : List (String × Entry) →
    List (String × List (String × ByteArray))
  | [] => []
  | (name, e) :: rest => (name, e.files (Path.join path name)) :: filesOfChildren path rest

end

end Entry

/-- A file tree with a working directory in it. -/
structure FileSystem where
  root : Entry
  cwd : Location

namespace FileSystem

variable (fs : FileSystem)

/-- The working directory as an absolute path. -/
def workingDirectory : String := "/" ++ "/".intercalate fs.cwd

/-- The location that a path names, whether or not something stands there. -/
def locationOf (path : String) : Location :=
  (Path.components path).foldl
    (fun location step => match step with
      | .root => []
      | .up => location.dropLast
      | .name s => location ++ [s])
    fs.cwd

/-- The tree with an entry at a path and folders on the way there. A folder
that stands there already keeps what it holds. -/
def put (path : String) (e : Entry) : FileSystem :=
  let location := fs.locationOf path
  match e, fs.root.get? location with
  | .folder [], some (.folder _) => fs
  | e, _ => { fs with root := fs.root.set location e }

/-- The entry at a location. -/
def at? (location : Location) : Option Entry := fs.root.get? location

/-- The working directory as the system determines it, unless it was removed. -/
def currentDir : Except OsError String :=
  match fs.at? fs.cwd with
  | some (.folder _) => .ok fs.workingDirectory
  | _ => .error .notFound

/-- The location that the segments of a path lead to. -/
def follow : Location → List (List Char) → Except OsError Location
  | location, [] => .ok location
  | location, s :: rest =>
    match fs.at? location with
    | some (.folder children) =>
      if Path.isIdle s then follow location rest
      else if s = ['.', '.'] then follow location.dropLast rest
      else
        let name := String.ofList s
        if (children.lookup name).isSome then follow (location ++ [name]) rest
        else .error .notFound
    | some _ => .error .notDirectory
    | none => .error .notFound

/-- Where a path starts, and its segments. -/
def begin (path : String) : Except OsError (Location × List (List Char)) :=
  if path = "" then .error .notFound
  else if path.toList.contains '\x00' then .error .nulByte
  else if Path.isAbsolute path then .ok ([], (Path.segments path).tail)
  else .ok (fs.cwd, Path.segments path)

/-- The location of an existing entry. -/
def locate (path : String) : Except OsError Location := do
  let (start, segments) ← fs.begin path
  fs.follow start segments

/-- The entry that a path leads to. -/
def entry (path : String) : Except OsError Entry := do
  let location ← fs.locate path
  (fs.at? location).elim (.error .notFound) .ok

/-- The text of a file. -/
def readText (path : String) : Except OsError String := do
  match ← fs.entry path with
  | .file content => (String.fromUTF8? content).elim (.error .notText) .ok
  | .folder _ => .error .isDirectory
  | .nullDevice | .fullDevice => .ok ""

/-- The tree with other bytes in the file at a location. -/
def write (location : Location) (content : ByteArray) : FileSystem :=
  { fs with root := fs.root.set location (.file content) }

/-- Opens a path for writing: the location it leads to, in a tree where the
file there is empty. Its folder has to exist. -/
def create (path : String) : Except OsError (Location × FileSystem) := do
  let (start, segments) ← fs.begin path
  match Path.splitLast segments with
  | none => .error .isDirectory
  | some (before, last, trailing) => do
    let parent ← fs.follow start before
    match fs.at? parent with
    | some (.folder children) =>
      if last = ['.'] ∨ last = ['.', '.'] ∨ trailing then .error .isDirectory
      else
        let name := String.ofList last
        let location := parent ++ [name]
        match children.lookup name with
        | none | some (.file _) => .ok (location, fs.write location ByteArray.empty)
        | some (.folder _) => .error .isDirectory
        | some .nullDevice | some .fullDevice => .ok (location, fs)
    | some _ => .error .notDirectory
    | none => .error .notFound

end FileSystem

end Ambient
