import Ambient.Declaration.Config
import Ambient.Files.Tree
import Ambient.Json.Record

/-!
# Settings files

A settings file changes the default configuration: it may name an output
file and base declarations, both relative to the settings file, add or
replace aliases, and add suppressed members. A field that it does not know
is an error.
-/

namespace Ambient

open Json

/-- What a settings file says. -/
structure Settings where
  output : Option String
  aliases : Table String
  suppress : Table (List String)
  baseTemplate : Option String

/-- Why settings are not loaded. -/
inductive SettingsError where
  | read (path : String) (cause : OsError)
  | decode (path : String) (fault : Fault)
  deriving DecidableEq, Repr

/-- The wording of a failure. -/
def SettingsError.message : SettingsError → String
  | .read path cause => "failed to read settings " ++ path ++ ": " ++ cause.message
  | .decode path fault => "invalid settings in " ++ path ++ ": " ++ fault.message

/-- The fields of a settings file. -/
def settingsSchema : Schema Settings where
  title := "Settings"
  blank := ⟨none, .empty, .empty, none⟩
  fields := [
    ("output", sets (fun v r => { r with output := v }) (optional path)),
    ("aliases", sets (fun v r => { r with aliases := v }) (table text)),
    ("suppress", sets (fun v r => { r with suppress := v }) (table (list text))),
    ("baseTemplate", sets (fun v r => { r with baseTemplate := v }) (optional path))]
  required := none
  strict := true

namespace Settings

/-- The settings with their paths as seen from a directory. -/
def relativeTo (s : Settings) (directory : String) : Settings :=
  { s with
    output := s.output.map (Path.join directory)
    baseTemplate := s.baseTemplate.map (Path.join directory) }

/-- The settings of a file. -/
def load (fs : FileSystem) (path : String) : Except SettingsError Settings := do
  let text ← (fs.readText path).mapError (.read path)
  let s ← (decode settingsSchema.record text).mapError (.decode path)
  return s.relativeTo ((Path.parent? path).getD "")

/-- The configuration with the settings laid over it. -/
def apply (s : Settings) (config : Config) : Config :=
  let config := s.output.elim config config.withOutput
  let config := s.aliases.entries.foldl (fun c (name, target) => c.withAlias name target) config
  let config := s.suppress.entries.foldl
    (fun c (className, members) =>
      members.foldl (fun c member => c.withSuppressed className member) c) config
  s.baseTemplate.elim config config.withBaseTemplate

end Settings

/-- The default configuration, with the settings of a file if one is named. -/
def loadConfig (fs : FileSystem) (settings : Option String) : Except SettingsError Config :=
  match settings with
  | none => .ok .default
  | some path => (Settings.load fs path).map (·.apply .default)

end Ambient
