import Ambient.Files.Tree
import Ambient.Library.Basic
import Ambient.Metadata.Decode

/-!
# Loading a library

Every file below a directory whose extension is `json` holds one record.
The files are read in the order in which the directory is walked, and the
first that cannot be read, decoded or added ends the loading.
-/

namespace Ambient

/-- Why a library is not loaded. -/
inductive LoadError where
  | walk (directory : String) (cause : OsError)
  | read (path : String) (cause : OsError)
  | decode (path : String) (fault : Json.Fault)
  | insert (error : InsertError)
  deriving DecidableEq, Repr

/-- The wording of a failure. -/
def LoadError.message : LoadError → String
  | .walk directory cause =>
    "failed to walk " ++ directory ++ ": IO error for operation on " ++ directory ++ ": " ++
      cause.message
  | .read path cause => "failed to read " ++ path ++ ": " ++ cause.message
  | .decode path fault => "invalid metadata in " ++ path ++ ": " ++ fault.message
  | .insert error => error.message

/-- The file holds a record. -/
def isRecordFile (path : String) : Bool :=
  Path.extension? path = some "json"

namespace Library

/-- The library with the record of one file. -/
def loadFile (lib : Library) (file : String × ByteArray) : Except LoadError Library := do
  let (path, content) := file
  let text ← (String.fromUTF8? content).elim (.error (.read path .notText)) .ok
  let c ← (Json.decode classRecord text).mapError (.decode path)
  (lib.insert c).mapError .insert

/-- The library that a directory describes. -/
def load (fs : FileSystem) (directory : String) : Except LoadError Library :=
  match fs.entry directory with
  | .error cause => .error (.walk directory cause)
  | .ok e =>
    ((e.files directory).filter fun file => isRecordFile file.1).foldlM loadFile (empty directory)

end Library

end Ambient
