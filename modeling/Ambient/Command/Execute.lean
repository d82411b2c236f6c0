import Ambient.Annotation.Mapping
import Ambient.Command.Settings
import Ambient.Declaration.Emit
import Ambient.Library.Load

/-!
# Commands

The two commands as functions of the file tree: generating the declaration
file of a metadata directory, and mapping type expressions. What the
command line says goes before what the settings file says.
-/

namespace Ambient

/-- Why a command fails. -/
inductive CommandError where
  | missingArgument (name : String)
  | settings (error : SettingsError)
  | load (error : LoadError)
  | emit (error : EmitError)
  deriving DecidableEq, Repr

/-- The wording of a failure. -/
def CommandError.message : CommandError → String
  | .missingArgument name => "missing required argument " ++ name
  | .settings error => error.message
  | .load error => error.message
  | .emit error => error.message

/-- What the command for generating is told. -/
structure GenerateArgs where
  metaDir : Option String
  output : Option String
  settings : Option String
  template : Option String
  timestamp : Option String
  deriving DecidableEq, Repr

/-- What the command for mapping is told. -/
structure MapTypeArgs where
  exprs : List String
  metaDir : Option String
  settings : Option String
  deriving DecidableEq, Repr

namespace GenerateArgs

/-- The configuration with the arguments laid over it. -/
def apply (args : GenerateArgs) (config : Config) : Config :=
  let config := args.output.elim config config.withOutput
  let config := args.template.elim config config.withBaseTemplate
  args.timestamp.elim config config.withTimestamp

/-- The configuration and the library that the arguments lead to. -/
def prepare (args : GenerateArgs) (fs : FileSystem) : Except CommandError (Config × Library) := do
  let metaDir ← args.metaDir.elim (.error (.missingArgument "--meta-dir")) .ok
  let config ← (loadConfig fs args.settings).mapError .settings
  let lib ← (Library.load fs metaDir).mapError .load
  return (args.apply config, lib)

/-- Generates the declaration file and answers with its path. -/
def execute (args : GenerateArgs) (host : Host) (fs : FileSystem) :
    Except CommandError String × FileSystem :=
  match args.prepare fs with
  | .error e => (.error e, fs)
  | .ok (config, lib) =>
    match host.compile config with
    | .error e => (.error (.emit e), fs)
    | .ok () =>
      let (result, fs) := process host.now config lib fs
      ((result.mapError CommandError.emit).map fun () => config.output, fs)

end GenerateArgs

namespace MapTypeArgs

/-- The declaration types of the expressions. Without a metadata directory no
class is known. -/
def execute (args : MapTypeArgs) (host : Host) (fs : FileSystem) :
    Except CommandError (List String) := do
  let lib ← match args.metaDir with
    | none => .ok (.empty ".")
    | some directory => (Library.load fs directory).mapError CommandError.load
  let config ← (loadConfig fs args.settings).mapError .settings
  (host.compile config).mapError .emit
  return args.exprs.map (mapperOf config lib).mapType

end MapTypeArgs

end Ambient
