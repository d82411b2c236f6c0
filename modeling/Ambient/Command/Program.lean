import Ambient.Command.Line

/-!
# The program

A run of the program as a function of its command line and the file tree:
what it prints, how it exits and which files it leaves behind.
-/

namespace Ambient

/-- What a run of the program leaves. -/
structure Outcome where
  exitCode : Nat
  stdout : String
  stderr : String
  fs : FileSystem

/-- The name of the program. -/
def programName : String := "ambient"

/-- How the program is used. -/
def usage : String :=
  "Declarations from class metadata\n\n" ++
  "Usage: " ++ programName ++ " <COMMAND>\n\n" ++
  "Commands:\n" ++
  "  generate  Generate a declaration file from class metadata\n" ++
  "              --meta-dir <DIR>    Directory of class metadata JSON files\n" ++
  "              -o, --output <FILE> Declaration file to write [default: " ++ defaultOutput ++
    "]\n" ++
  "              -c, --config <FILE> JSON file with settings\n" ++
  "              --template <FILE>   Base declarations written before the classes\n" ++
  "              --timestamp <TEXT>  Text to write as the time of generation\n" ++
  "  map-type  Print the declaration types of type expressions\n" ++
  "              --meta-dir <DIR>    Directory of class metadata JSON files\n" ++
  "              -c, --config <FILE> JSON file with settings\n" ++
  "  help      Print this message\n"

/-- The reason given for refusing a command line. -/
def UsageError.message : UsageError → String
  | .displayHelp | .displayHelpOnMissing => ""
  | .invalidSubcommand => "error: unrecognized subcommand\n\n"
  | .unknownArgument => "error: unexpected argument\n\n"
  | .missingRequiredArgument => "error: a required argument was not provided\n\n"
  | .invalidValue => "error: an option has no value\n\n"
  | .argumentConflict => "error: an option cannot be used multiple times\n\n"
  | .tooManyValues => "error: an option takes no value\n\n"

/-- A command as a run: a failed command exits with 1 and prints its error. -/
def Command.run (command : Command) (host : Host) (fs : FileSystem) : Outcome :=
  let failed (e : CommandError) (fs : FileSystem) : Outcome :=
    ⟨1, "", "error: " ++ e.message ++ "\n", fs⟩
  match command with
  | .generate args =>
    match args.execute host fs with
    | (.ok _, fs) => ⟨0, "", "", fs⟩
    | (.error e, fs) => failed e fs
  | .mapType args =>
    match args.execute host fs with
    | .ok types =>
      let lines := (args.exprs.zip types).map fun (expr, type) => expr ++ " => " ++ type ++ "\n"
      ⟨0, String.join lines, "", fs⟩
    | .error e => failed e fs

/-- A run of the program. A refused command line exits with 2, but asking for
help succeeds. -/
def run (args : List String) (host : Host) (fs : FileSystem) : Outcome :=
  match CommandLine.parse args with
  | .ok command => command.run host fs
  | .error .displayHelp => ⟨0, usage, "", fs⟩
  | .error e => ⟨2, "", e.message ++ usage, fs⟩

end Ambient
