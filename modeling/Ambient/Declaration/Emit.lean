import Ambient.Declaration.File
import Ambient.Files.Output

/-!
# Emitting a declaration file

The text of a declaration file, and writing it. Before anything else the
search for the aliases is made, which the system may refuse. Writing then
opens the output, and with the output open it asks for the working directory
and writes the first line. The base declarations are read after that, from a
tree in which the output is already empty.
-/

namespace Ambient

/-- Why a declaration file is not emitted. -/
inductive EmitError where
  | aliasTable (reason : String)
  | output (error : OutputError)
  | currentDir (cause : OsError)
  | template (path : String) (cause : OsError)
  deriving DecidableEq, Repr

/-- The wording of a failure. -/
def EmitError.message : EmitError → String
  | .aliasTable reason => "invalid alias table: " ++ reason
  | .output error => error.message
  | .currentDir cause => "cannot determine working directory: " ++ cause.message
  | .template path cause => "cannot read base template " ++ path ++ ": " ++ cause.message

/-- What a run is given by the system: the time, and for names of aliases the
reason, if there is one, why no search for them can be made. -/
structure Host where
  now : String
  refusal? : List String → Option String

/-- Makes the search for the aliases of a configuration. Without aliases there
is nothing to make. -/
def Host.compile (host : Host) (config : Config) : Except EmitError Unit :=
  if config.aliases.keys = [] then .ok ()
  else (host.refusal? config.aliases.keys).elim (.ok ()) fun reason => .error (.aliasTable reason)

/-- The working directory. -/
def readCurrentDir (fs : FileSystem) : Except EmitError String :=
  fs.currentDir.mapError .currentDir

/-- The base declarations of a configuration. -/
def readTemplate (config : Config) (fs : FileSystem) : Except EmitError String :=
  match config.baseTemplate with
  | none => .ok bundledTemplate
  | some path => (fs.readText path).mapError (.template path)

/-- The text of the declaration file. -/
def emit (now : String) (config : Config) (lib : Library) (fs : FileSystem) :
    Except EmitError String := do
  let cwd ← readCurrentDir fs
  let template ← readTemplate config fs
  return renderPieces config (filePieces cwd now config lib template)

/-- Writes the pieces of the declaration file to an open output. -/
def emitTo (now : String) (config : Config) (lib : Library) (o : Output) :
    Except EmitError Unit × Output :=
  match readCurrentDir o.fs with
  | .error e => (.error e, o)
  | .ok cwd =>
    match o.write ((headingPiece now config).render config) with
    | (.error e, o) => (.error (.output e), o)
    | (.ok (), o) =>
      match readTemplate config o.fs with
      | .error e => (.error e, o)
      | .ok template =>
        let pieces := .template template :: .blankLine :: declarationPieces cwd config lib
        let (result, o) := o.writeAll (pieces.map (Piece.render config))
        (result.mapError .output, o)

/-- Writes the declaration file. On failure the output is released as far as
it got. -/
def process (now : String) (config : Config) (lib : Library) (fs : FileSystem) :
    Except EmitError Unit × FileSystem :=
  match Output.create fs config.output with
  | .error e => (.error (.output e), fs)
  | .ok o =>
    match emitTo now config lib o with
    | (.error e, o) => (.error e, o.release)
    | (.ok (), o) =>
      let (result, fs) := o.finish
      (result.mapError .output, fs)

end Ambient
