import Ambient.Command.Execute

/-!
# The command line

A command line names a command and then its options and, for mapping, the
expressions. An option is long (`--output x`, `--output=x`) or short
(`-o x`, `-ox`, `-o=x`) and is given once. What follows a bare `--` is no
option. An option is settled when the next one begins or the line ends, so
an unknown option is reported before a bad value that stands just before it.
-/

namespace Ambient

/-- What a command line asks for. -/
inductive Command where
  | generate (args : GenerateArgs)
  | mapType (args : MapTypeArgs)
  deriving DecidableEq, Repr

/-- Why a command line asks for nothing that can be done. -/
inductive UsageError where
  | displayHelp
  /-- Nothing was asked for. -/
  | displayHelpOnMissing
  | invalidSubcommand
  | unknownArgument
  | missingRequiredArgument
  /-- An option without its value, or an empty path. -/
  | invalidValue
  /-- An option that is given twice. -/
  | argumentConflict
  /-- A value for an option that takes none. -/
  | tooManyValues
  deriving DecidableEq, Repr

/-- An option that takes a value. -/
structure OptionSpec where
  long : String
  short : Option Char
  /-- The value is a path, which cannot be empty. -/
  isPath : Bool
  deriving DecidableEq, Repr

/-- What a command accepts. -/
structure CommandSpec where
  options : List OptionSpec
  /-- The command takes arguments that are no options. -/
  takesArguments : Bool

namespace CommandLine

/-! ## Options of one command -/

/-- The part of a command line read so far. -/
structure Parse where
  /-- The option read last, with its value once that is read. -/
  pending : Option (OptionSpec × Option String)
  values : Table String
  /-- The arguments that are no options, latest first. -/
  arguments : List String
  /-- A bare `--` has been read. -/
  trailing : Bool

/-- Before anything is read. -/
def Parse.start : Parse := ⟨none, .empty, [], false⟩

/-- An option takes its value. -/
def Parse.assign (p : Parse) (o : OptionSpec) (value : String) : Except UsageError Parse :=
  if p.values.contains o.long then .error .argumentConflict
  else if o.isPath && value.isEmpty then .error .invalidValue
  else .ok { p with values := p.values.insert o.long value }

/-- Settles the option read last. -/
def Parse.settle (p : Parse) : Except UsageError Parse :=
  match p.pending with
  | none => .ok p
  | some (_, none) => .error .invalidValue
  | some (o, some value) => { p with pending := none }.assign o value

/-- An option begins, perhaps with its value attached. -/
def Parse.begin (p : Parse) (o : OptionSpec) (attached : Option String) :
    Except UsageError Parse := do
  let p ← p.settle
  match attached with
  | some value => p.assign o value
  | none => .ok { p with pending := some (o, none) }

/-- Help is asked for. -/
def Parse.help (p : Parse) : Except UsageError Parse := do
  let _ ← p.settle
  .error .displayHelp

/-- A word that is no option: the value of the option read last, or an
argument. -/
def Parse.word (spec : CommandSpec) (p : Parse) (word : String) : Except UsageError Parse :=
  match p.trailing, p.pending with
  | false, some (o, none) => .ok { p with pending := some (o, some word) }
  | _, _ =>
    if spec.takesArguments then do
      let p ← p.settle
      .ok { p with arguments := word :: p.arguments }
    else .error .unknownArgument

/-- The parts of a text before and after its first equals sign. -/
def splitEquals (s : List Char) : List Char × Option String :=
  let name := s.takeWhile (· ≠ '=')
  match s.drop name.length with
  | [] => (name, none)
  | _ :: value => (name, some (String.ofList value))

/-- A long option, without its dashes. -/
def Parse.long (spec : CommandSpec) (p : Parse) (s : List Char) : Except UsageError Parse :=
  let (name, attached) := splitEquals s
  let name := String.ofList name
  match spec.options.find? (·.long = name) with
  | some o => p.begin o attached
  | none =>
    if name ≠ "help" then .error .unknownArgument
    else if attached.isSome then .error .tooManyValues
    else p.help

/-- A short option, without its dash; what follows its letter is its value. -/
def Parse.short (spec : CommandSpec) (p : Parse) (letter : Char) (rest : List Char) :
    Except UsageError Parse :=
  match spec.options.find? (·.short = some letter) with
  | some o =>
    p.begin o <| match rest with
      | [] => none
      | '=' :: value => some (String.ofList value)
      | value => some (String.ofList value)
  | none => if letter = 'h' then p.help else .error .unknownArgument

/-- One word of the command line. -/
def Parse.step (spec : CommandSpec) (p : Parse) (arg : String) : Except UsageError Parse :=
  if p.trailing then p.word spec arg
  else
    match arg.toList with
    | ['-', '-'] => .ok { p with trailing := true }
    | '-' :: '-' :: s => p.long spec s
    | '-' :: letter :: rest => p.short spec letter rest
    | _ => p.word spec arg

/-- All words after the name of a command. -/
def Parse.run (spec : CommandSpec) (args : List String) : Except UsageError Parse := do
  let p ← args.foldlM (Parse.step spec) .start
  p.settle

/-! ## Commands -/

/-- The directory of metadata. -/
def metaDirOption : OptionSpec := ⟨"meta-dir", none, true⟩

/-- The settings file. -/
def configOption : OptionSpec := ⟨"config", some 'c', true⟩

/-- The options for generating. -/
def generateSpec : CommandSpec where
  options := [metaDirOption, ⟨"output", some 'o', true⟩, configOption, ⟨"template", none, true⟩,
    ⟨"timestamp", none, false⟩]
  takesArguments := false

/-- The options for mapping. -/
def mapTypeSpec : CommandSpec where
  options := [metaDirOption, configOption]
  takesArguments := true

/-- The words after `generate`. -/
def parseGenerate (args : List String) : Except UsageError Command := do
  let p ← Parse.run generateSpec args
  if !p.values.contains "meta-dir" then .error .missingRequiredArgument
  else .ok <| .generate {
    metaDir := p.values.get? "meta-dir"
    output := p.values.get? "output"
    settings := p.values.get? "config"
    template := p.values.get? "template"
    timestamp := p.values.get? "timestamp" }

/-- The words after `map-type`. -/
def parseMapType (args : List String) : Except UsageError Command := do
  let p ← Parse.run mapTypeSpec args
  if p.arguments.isEmpty then .error .missingRequiredArgument
  else .ok <| .mapType {
    exprs := p.arguments.reverse
    metaDir := p.values.get? "meta-dir"
    settings := p.values.get? "config" }

/-- The words that may stand in the place of a command. -/
def commandNames : List String := ["generate", "map-type", "help"]

/-- The words after `help`: at most one of the commands. -/
def parseHelp (args : List String) : UsageError :=
  match args with
  | [] => .displayHelp
  | [name] => if name ∈ commandNames then .displayHelp else .invalidSubcommand
  | _ => .invalidSubcommand

/-- A word that begins with a dash, in the place of a command. -/
def parseTopOption (s : List Char) : UsageError :=
  match s with
  | 'h' :: _ => .displayHelp
  | '-' :: s =>
    let (name, attached) := splitEquals s
    if name ≠ "help".toList then .unknownArgument
    else if attached.isSome then .tooManyValues
    else .displayHelp
  | _ => .unknownArgument

/-- The whole command line, after the name of the program. -/
def parse (args : List String) : Except UsageError Command :=
  match args with
  | [] | ["--"] => .error .displayHelpOnMissing
  | "--" :: name :: _ =>
    .error (if name ∈ commandNames then .unknownArgument else .invalidSubcommand)
  | "generate" :: rest => parseGenerate rest
  | "map-type" :: rest => parseMapType rest
  | "help" :: rest => .error (parseHelp rest)
  | word :: _ =>
    match word.toList with
    | '-' :: c :: s => .error (parseTopOption (c :: s))
    | _ => .error .invalidSubcommand

end CommandLine

end Ambient
