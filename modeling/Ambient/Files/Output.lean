import Ambient.Files.Tree

/-!
# Buffered output

An output file is empty from the moment it is opened, and what is written
to it waits in a buffer until the buffer has no room. An error shows when
the buffer is emptied: within a write, or when the output is finished. An
output that is only released loses its errors but not its text.
-/

namespace Ambient

/-- How writing a file can fail. -/
inductive OutputError where
  | cannotOpen (path : String) (cause : OsError)
  | cannotWrite (path : String) (cause : OsError)
  | cannotClose (path : String) (cause : OsError)
  deriving DecidableEq, Repr

/-- The wording of a failure. -/
def OutputError.message : OutputError → String
  | .cannotOpen path cause => "cannot open output file " ++ path ++ ": " ++ cause.message
  | .cannotWrite path cause => "cannot write to " ++ path ++ ": " ++ cause.message
  | .cannotClose path cause => "cannot close " ++ path ++ ": " ++ cause.message

/-- The bytes that the buffer of an output holds. -/
def bufferSize : Nat := 8192

/-- The tree with a text added to what stands at a location. -/
def FileSystem.append (fs : FileSystem) (location : Location) (text : String) :
    Except OsError FileSystem :=
  if text = "" then .ok fs
  else
    match fs.at? location with
    | some (.file content) => .ok (fs.write location (content ++ text.toUTF8))
    | some .fullDevice => .error .noSpace
    | _ => .ok fs

/-- An open output file in its file tree. -/
structure Output where
  path : String
  location : Location
  pending : String
  fs : FileSystem

namespace Output

/-- Opens a path for output. -/
def create (fs : FileSystem) (path : String) : Except OutputError Output :=
  match fs.create path with
  | .error cause => .error (.cannotOpen path cause)
  | .ok (location, fs) => .ok ⟨path, location, "", fs⟩

/-- The output with an empty buffer. -/
def flush (o : Output) : Except OsError Output :=
  (o.fs.append o.location o.pending).map fun fs => { o with pending := "", fs := fs }

/-- The output after one more text. -/
def tryWrite (o : Output) (text : String) : Except OsError Output := do
  let o ← if bufferSize < o.pending.utf8ByteSize + text.utf8ByteSize then o.flush else .ok o
  if bufferSize ≤ text.utf8ByteSize then
    (o.fs.append o.location text).map fun fs => { o with fs := fs }
  else .ok { o with pending := o.pending ++ text }

/-- Writes a text. After a failure the output is as it was. -/
def write (o : Output) (text : String) : Except OutputError Unit × Output :=
  match o.tryWrite text with
  | .ok o => (.ok (), o)
  | .error cause => (.error (.cannotWrite o.path cause), o)

/-- Writes texts up to the first failure. -/
def writeAll (o : Output) : List String → Except OutputError Unit × Output
  | [] => (.ok (), o)
  | text :: texts =>
    match o.write text with
    | (.ok (), o) => writeAll o texts
    | failed => failed

/-- Releases the output and looks at no error. -/
def release (o : Output) : FileSystem :=
  match o.flush with
  | .ok o => o.fs
  | .error _ => o.fs

/-- Finishes the output: the buffer is emptied and the file made permanent,
which a device cannot be. -/
def finish (o : Output) : Except OutputError Unit × FileSystem :=
  match o.flush with
  | .error cause => (.error (.cannotClose o.path cause), o.fs)
  | .ok o =>
    match o.fs.at? o.location with
    | some .nullDevice | some .fullDevice =>
      (.error (.cannotClose o.path .invalidArgument), o.fs)
    | _ => (.ok (), o.fs)

end Output

end Ambient
