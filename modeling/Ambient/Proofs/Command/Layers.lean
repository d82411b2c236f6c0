import Mathlib.Data.List.Nodup
import Ambient.Proofs.Command.Failure
import Ambient.Proofs.Files.Lookup
import Ambient.Proofs.Json.Parts
import Ambient.Proofs.Metadata.Rearranged

/-!
# Layers of a configuration

What a run works with has three layers: the default configuration, the settings
file over it, and the arguments on top (`GenerateArgs.Layered`). Single values
are those of the topmost layer that has one. The aliases are a table written
over a table: an alias of the settings has the target that they give last, one
that is bundled keeps its place, and the others follow in the order of the file
(`Table.get?_overlay`, `Table.keys_overlay`). The suppressed members are those
of both layers, and no bundled one is lost (`Config.isSuppressed_suppressing`).

Whatever can be read as settings is so laid over the default, also when it is
written as an array (`GenerateArgs.exists_layered`).
-/

namespace Ambient

open Json

/-! ## Suppressed members -/

/-- The members of its classes that a table lists, one after the other. -/
def Table.listed (t : Table (List String)) : List (String × String) :=
  t.entries.flatMap fun e => e.2.map fun member => (e.1, member)

theorem Table.mem_listed_iff {t : Table (List String)} {className member : String} :
    (className, member) ∈ t.listed ↔
      ∃ members, t.get? className = some members ∧ member ∈ members := by
  rw [listed, List.mem_flatMap]
  constructor
  · rintro ⟨⟨name, members⟩, he, hmem⟩
    obtain ⟨other, hother, heq⟩ := List.mem_map.1 hmem
    cases heq
    exact ⟨members, get?_eq_some_iff.2 he, hother⟩
  · rintro ⟨members, hget, hmem⟩
    exact ⟨_, get?_eq_some_iff.1 hget, List.mem_map.2 ⟨member, hmem, rfl⟩⟩

namespace Config

variable {className member : String}

/-- The configuration with more members to comment out, each of its class. -/
def suppressing (c : Config) (members : List (String × String)) : Config :=
  members.foldl (fun c e => c.withSuppressed e.1 e.2) c

/-- Nothing but the table of suppressed members is looked at or changed. -/
theorem suppressing_eq (c c' : Config) (h : c.suppressed = c'.suppressed)
    (members : List (String × String)) :
    c.suppressing members = { c with suppressed := (c'.suppressing members).suppressed } := by
  induction members generalizing c c' with
  | nil =>
    show c = { c with suppressed := c'.suppressed }
    rw [← h]
  | cons e members ih =>
    have hstep : (c.withSuppressed e.1 e.2).suppressed = (c'.withSuppressed e.1 e.2).suppressed := by
      simp only [withSuppressed, h]
    exact ih _ _ hstep

/-- The member is listed under the class. -/
theorem isSuppressed_eq_true_iff {c : Config} :
    c.isSuppressed className member = true ↔
      ∃ members, c.suppressed.get? className = some members ∧ member ∈ members := by
  rw [isSuppressed, List.contains_iff_mem]
  cases c.suppressed.get? className with
  | none => simp
  | some members => simp

theorem isSuppressed_withSuppressed {c : Config} {e : String × String} :
    (c.withSuppressed e.1 e.2).isSuppressed className member = true ↔
      c.isSuppressed className member = true ∨ (className, member) = e := by
  obtain ⟨name, one⟩ := e
  simp only [isSuppressed, withSuppressed, Table.get?_insert, List.contains_iff_mem, Prod.mk.injEq]
  by_cases hclass : className = name
  · subst hclass
    rw [if_pos rfl, Option.getD_some]
    split
    · rename_i hmem
      constructor
      · exact .inl
      · rintro (h | ⟨-, rfl⟩)
        · exact h
        · exact hmem
    · simp
  · simp [hclass]

/-- **No suppressed member is lost**, and those that come are the ones that
are given. -/
theorem isSuppressed_suppressing {c : Config} {members : List (String × String)} :
    (c.suppressing members).isSuppressed className member = true ↔
      c.isSuppressed className member = true ∨ (className, member) ∈ members := by
  induction members generalizing c with
  | nil => simp [suppressing]
  | cons e members ih =>
    rw [suppressing, List.foldl_cons, ← suppressing, ih, isSuppressed_withSuppressed,
      List.mem_cons, or_assoc]

/-- Class by class is member by member. -/
theorem foldl_withSuppressed (c : Config) (t : Table (List String)) :
    t.entries.foldl (fun c e => e.2.foldl (fun c member => c.withSuppressed e.1 member) c) c =
      c.suppressing t.listed := by
  rw [suppressing, Table.listed, List.foldl_flatMap]
  simp only [List.foldl_map]

/-! ## Aliases -/

theorem foldl_withAlias (c : Config) (es : List (String × String)) :
    es.foldl (fun c e => c.withAlias e.1 e.2) c =
      { c with aliases := es.foldl (fun t e => t.insert e.1 e.2) c.aliases } := by
  induction es generalizing c with
  | nil => rfl
  | cons e es ih => exact ih (c.withAlias e.1 e.2)

/-! ## The bundled layer -/

theorem nodup_defaultAliases : (defaultAliases.map Prod.fst).Nodup := by decide +kernel

theorem nodup_defaultSuppressed : (defaultSuppressed.map Prod.fst).Nodup := by decide +kernel

theorem isSuppressed_default :
    default.isSuppressed className member = true ↔
      ∃ members, (className, members) ∈ defaultSuppressed ∧ member ∈ members := by
  rw [isSuppressed_eq_true_iff]
  have hget : default.suppressed.get? className = defaultSuppressed.lookup className :=
    Table.get?_ofList_of_nodup nodup_defaultSuppressed className
  rw [hget]
  refine exists_congr fun members => and_congr_left fun _ => ?_
  exact ⟨mem_of_lookup_eq_some, lookup_eq_some_of_mem nodup_defaultSuppressed⟩

end Config

/-! ## The settings file -/

/-- What a settings file says, entries in their order and with their repetitions. -/
structure SettingsFile where
  output : Option String
  aliases : List (String × String)
  suppress : List (String × List String)
  baseTemplate : Option String

namespace SettingsFile

variable {file file' : SettingsFile} {left : Nat} {n : Node}

/-- The file that says nothing. -/
def blank : SettingsFile := ⟨none, [], [], none⟩

/-- The settings of the file. -/
def settings (file : SettingsFile) : Settings :=
  ⟨file.output, .ofList file.aliases, .ofList file.suppress, file.baseTemplate⟩

/-- The value says what the file says, each part under its key. A path may be
left out or be null, and tables may be left out. -/
structure Written (file : SettingsFile) (n : Node) : Prop where
  output : Tells n "output" (fun v o => v = optionalNode textNode o) none file.output
  aliases : Tells n "aliases" (fun v es => v = tableNode textNode es) [] file.aliases
  suppress : Tells n "suppress" (fun v es => v = tableNode (listNode textNode) es) [] file.suppress
  baseTemplate :
    Tells n "baseTemplate" (fun v o => v = optionalNode textNode o) none file.baseTemplate

/-- **A value says one thing.** -/
theorem Written.unique (h : file.Written n) (h' : file'.Written n) : file = file' := by
  have hpath : (optionalNode textNode).Injective :=
    optionalNode_injective textNode_injective fun text heq => by cases heq
  have hmembers : (listNode textNode).Injective := listNode_injective textNode_injective
  have houtput := h.output.eq_of_injective hpath h'.output
  have haliases := h.aliases.eq_of_injective (tableNode_injective textNode_injective) h'.aliases
  have hsuppress := h.suppress.eq_of_injective (tableNode_injective hmembers) h'.suppress
  have htemplate := h.baseTemplate.eq_of_injective hpath h'.baseTemplate
  cases file
  cases file'
  cases houtput
  cases haliases
  cases hsuppress
  cases htemplate
  rfl

theorem keyed_settingsSchema : settingsSchema.Keyed :=
  ⟨by decide +kernel, fun key hkey => by cases hkey⟩

theorem independent_settingsSchema : settingsSchema.Independent := by
  simp [Schema.Independent, settingsSchema, Schema.commute_sets]

/-- A path of the settings is one that is written, or none. -/
theorem tells_path {s : Settings} {set : Option String → Settings → Settings} (key : String)
    (part : Settings → Option String) (h : settingsSchema.record left n = .ok s)
    (hfield : settingsSchema.fields.lookup key = some (sets set (optional path)))
    (hset : ∀ o s, part (set o s) = o)
    (hsame : set none settingsSchema.blank = settingsSchema.blank) :
    Tells (settingsSchema.asObject n) key (fun v o => v = optionalNode textNode o) none (part s) := by
  have hnull : optional path 0 .null = .ok none := rfl
  exact independent_settingsSchema.tells keyed_settingsSchema h hfield hset hnull hsame
    inverts_path.optional

/-- A table of the settings is one that is written, or empty. -/
theorem exists_tells_table {α : Type} {s : Settings} {read : Reader α} {write : α → Node}
    {set : Table α → Settings → Settings} (key : String) (part : Settings → Table α)
    (h : settingsSchema.record left n = .ok s) (hR : Inverts read write)
    (hfield : settingsSchema.fields.lookup key = some (sets set (table read)))
    (hset : ∀ t s, part (set t s) = t)
    (hsame : set .empty settingsSchema.blank = settingsSchema.blank) :
    ∃ es, Tells (settingsSchema.asObject n) key (fun v es => v = tableNode write es) [] es ∧
      part s = .ofList es := by
  have hempty : table read 1 (.object [] true) = .ok .empty := rfl
  have htells := independent_settingsSchema.tells keyed_settingsSchema h hfield hset hempty hsame
    hR.table
  obtain ⟨v, hv, es, rfl, hes⟩ | ⟨hnone, hes⟩ := htells
  · exact ⟨es, .inl ⟨_, hv, rfl⟩, hes⟩
  · exact ⟨[], .inr ⟨hnone, rfl⟩, hes⟩

/-- **Settings that are read are written**, as an object or as an array. -/
theorem exists_written {s : Settings} (h : settingsSchema.record left n = .ok s) :
    ∃ file : SettingsFile, file.Written (settingsSchema.asObject n) ∧ s = file.settings := by
  obtain ⟨aliases, haliases, hs⟩ :=
    exists_tells_table "aliases" Settings.aliases h inverts_text rfl (fun _ _ => rfl) rfl
  obtain ⟨suppress, hsuppress, hs'⟩ :=
    exists_tells_table "suppress" Settings.suppress h inverts_text.list rfl (fun _ _ => rfl) rfl
  refine ⟨⟨s.output, aliases, suppress, s.baseTemplate⟩, ?_, ?_⟩
  · exact {
      output := tells_path "output" Settings.output h rfl (fun _ _ => rfl) rfl
      aliases := haliases
      suppress := hsuppress
      baseTemplate := tells_path "baseTemplate" Settings.baseTemplate h rfl (fun _ _ => rfl) rfl }
  · rw [settings, ← hs, ← hs']

end SettingsFile

/-! ## The layers -/

/-- The configuration with the settings over it, part by part. -/
theorem Settings.apply_eq (s : Settings) (c : Config) :
    s.apply c = { c with
      output := s.output.getD c.output
      aliases := c.aliases.overlay s.aliases
      suppressed := (c.suppressing s.suppress.listed).suppressed
      baseTemplate := s.baseTemplate.or c.baseTemplate } := by
  have haliases : s.aliases.entries.foldl (fun c e => c.withAlias e.1 e.2)
      (s.output.elim c c.withOutput) =
      { c with output := s.output.getD c.output, aliases := c.aliases.overlay s.aliases } := by
    rw [Config.foldl_withAlias]
    cases s.output with
    | none => rfl
    | some path => rfl
  have hmembers (base : Config) (h : base.suppressed = c.suppressed) :
      s.suppress.entries.foldl (fun c e =>
        e.2.foldl (fun c member => c.withSuppressed e.1 member) c) base =
      { base with suppressed := (c.suppressing s.suppress.listed).suppressed } := by
    rw [Config.foldl_withSuppressed, base.suppressing_eq c h]
  -- the base declarations come last, over a configuration that is named to be met twice
  obtain ⟨base, hbase⟩ : ∃ base, base = s.suppress.entries.foldl
      (fun c (e : String × List String) =>
        e.2.foldl (fun c member => c.withSuppressed e.1 member) c)
      (s.aliases.entries.foldl (fun c (e : String × String) => c.withAlias e.1 e.2)
        (s.output.elim c c.withOutput)) := ⟨_, rfl⟩
  have happly : s.apply c = s.baseTemplate.elim base base.withBaseTemplate := by
    rw [hbase]
    rfl
  rw [haliases] at hbase
  obtain rfl := hbase.trans (hmembers _ rfl)
  rw [happly]
  cases s.baseTemplate with
  | none => rfl
  | some path => rfl

namespace GenerateArgs

open Config

/-- The directory of the settings file that is named. -/
def settingsDirectory (args : GenerateArgs) : String :=
  (args.settings.bind Path.parent?).getD ""

/-- The settings are those of the file that is named, or none at all. -/
def Finds (args : GenerateArgs) (fs : FileSystem) (file : SettingsFile) : Prop :=
  match args.settings with
  | none => file = .blank
  | some path => ∃ text, fs.readText path = .ok text ∧
      file.Written (settingsSchema.asObject (Document.ofText text).root)

/-- **The layers of a configuration**: the arguments, then the settings file,
then what is bundled. -/
structure Layered (args : GenerateArgs) (file : SettingsFile) (config : Config) : Prop where
  output : config.output =
    (args.output.or (file.output.map (Path.join args.settingsDirectory))).getD defaultOutput
  baseTemplate : config.baseTemplate =
    args.template.or (file.baseTemplate.map (Path.join args.settingsDirectory))
  timestamp : config.timestamp = args.timestamp
  /-- The target of an alias is the one that the file gives last, else the bundled one. -/
  target (name : String) : config.aliases.get? name =
    (file.aliases.reverse.lookup name).or (defaultAliases.lookup name)
  /-- Bundled aliases come first, and new ones follow in the order of the file. -/
  order : config.aliases.keys = defaultAliases.map Prod.fst ++
    (file.aliases.map Prod.fst).eraseDups.filter (· ∉ defaultAliases.map Prod.fst)
  /-- The file suppresses the members that it lists last under a class. -/
  suppressed (className member : String) : config.isSuppressed className member = true ↔
    (∃ members, (className, members) ∈ defaultSuppressed ∧ member ∈ members) ∨
      ∃ members, file.suppress.reverse.lookup className = some members ∧ member ∈ members

variable {args : GenerateArgs} {fs : FileSystem} {file : SettingsFile}

theorem apply_eq (args : GenerateArgs) (c : Config) :
    args.apply c = { c with
      output := args.output.getD c.output
      baseTemplate := args.template.or c.baseTemplate
      timestamp := args.timestamp.or c.timestamp } := by
  obtain ⟨metaDir, output, settings, template, timestamp⟩ := args
  cases output <;> cases template <;> cases timestamp <;> rfl

/-- The arguments and the settings laid over the default. -/
theorem layered_apply (args : GenerateArgs) (file : SettingsFile) :
    args.Layered file
      (args.apply ((file.settings.relativeTo args.settingsDirectory).apply .default)) := by
  rw [apply_eq, Settings.apply_eq]
  have htarget (name : String) : Config.default.aliases.get? name = defaultAliases.lookup name :=
    Table.get?_ofList_of_nodup nodup_defaultAliases name
  have hkeys : Config.default.aliases.keys = defaultAliases.map Prod.fst :=
    Table.keys_ofList_of_nodup nodup_defaultAliases
  refine ⟨?_, ?_, ?_, fun name => ?_, ?_, fun className member => ?_⟩
  · show args.output.getD ((file.output.map _).getD defaultOutput) = _
    cases args.output with
    | none => rfl
    | some path => rfl
  · show args.template.or ((file.baseTemplate.map _).or none) = _
    rw [Option.or_none]
  · show args.timestamp.or none = _
    rw [Option.or_none]
  · show (Config.default.aliases.overlay (.ofList file.aliases)).get? name = _
    rw [Table.get?_overlay, Table.get?_ofList, htarget]
  · show (Config.default.aliases.overlay (.ofList file.aliases)).keys = _
    rw [Table.keys_overlay, Table.keys_ofList, hkeys]
  · rw [← isSuppressed_default, ← Table.get?_ofList, ← Table.mem_listed_iff]
    exact isSuppressed_suppressing

/-- Where settings can be read, they are laid over the default. -/
theorem exists_loadConfig_eq
    (hsettings : ∀ path, args.settings = some path → ∃ text s,
      fs.readText path = .ok text ∧ decode settingsSchema.record text = .ok s) :
    ∃ file : SettingsFile, args.Finds fs file ∧ loadConfig fs args.settings =
      .ok ((file.settings.relativeTo args.settingsDirectory).apply .default) := by
  cases hpath : args.settings with
  | none =>
    refine ⟨.blank, ?_, rfl⟩
    rw [Finds, hpath]
  | some path =>
    obtain ⟨text, s, htext, hdecode⟩ := hsettings path hpath
    obtain ⟨file, hwritten, rfl⟩ := SettingsFile.exists_written (decode_eq_ok_iff.1 hdecode).1
    refine ⟨file, ?_, ?_⟩
    · rw [Finds, hpath]
      exact ⟨text, htext, hwritten⟩
    · have hload : Settings.load fs path =
          .ok (file.settings.relativeTo args.settingsDirectory) := by
        rw [Settings.load, htext, settingsDirectory, hpath]
        simp only [mapError_ok, hdecode, bind, Except.bind, pure, Except.pure, Option.bind_some]
      rw [loadConfig, hload]
      rfl

/-- **What a run works with.** If its settings can be read, and its metadata
too, then it goes on with a configuration of these layers: it makes the search
for its aliases and writes the file that it asks for. -/
theorem exists_layered {directory : String} {lib : Library} (hdir : args.metaDir = some directory)
    (hlib : Library.load fs directory = .ok lib)
    (hsettings : ∀ path, args.settings = some path → ∃ text s,
      fs.readText path = .ok text ∧ decode settingsSchema.record text = .ok s) :
    ∃ file config, args.Finds fs file ∧ args.Layered file config ∧
      args.prepare fs = .ok (config, lib) ∧
      ∀ host : Host,
        (∀ e, host.compile config = .error e → args.execute host fs = (.error (.emit e), fs)) ∧
        (host.compile config = .ok () → args.execute host fs =
          (((process host.now config lib fs).1.mapError CommandError.emit).map
              fun () => config.output,
            (process host.now config lib fs).2)) := by
  obtain ⟨file, hfinds, hload⟩ := exists_loadConfig_eq hsettings
  refine ⟨file, _, hfinds, layered_apply args file, ?_⟩
  have hprepare : args.prepare fs = .ok
      (args.apply ((file.settings.relativeTo args.settingsDirectory).apply .default), lib) := by
    simp only [prepare, hdir, hload, hlib, Option.elim_some, bind, Except.bind, mapError_ok, pure,
      Except.pure]
  refine ⟨hprepare, fun host => ⟨fun e hrefused => ?_, fun hcompiled => ?_⟩⟩
  · simp only [execute, hprepare, hrefused]
  · simp only [execute, hprepare, hcompiled]

end GenerateArgs

/-! ## Settings over the default -/

/-- Settings that give one alias another target and a new one two of them. -/
def repaintedText : String :=
  "\x7b\"aliases\":\x7b\"Color\":\"string\",\"Number\":\"bigint\",\"Color\":\"Paint\"\x7d," ++
  "\"suppress\":\x7b\"qx.html.Flash\":[\"play\"]\x7d,\"output\":\"types/out.d.ts\"\x7d"

/-- What they say. -/
def repainted : SettingsFile :=
  ⟨some "types/out.d.ts", [("Color", "string"), ("Number", "bigint"), ("Color", "Paint")],
    [("qx.html.Flash", ["play"])], none⟩

/-- A tree with these settings and a directory of metadata. -/
def furnished : FileSystem :=
  ⟨.folder [("conf", .folder [("settings.json", .file repaintedText.toUTF8)]),
    ("meta", .folder [])], []⟩

/-- Arguments that name them, and base declarations of their own. -/
def repainting : GenerateArgs :=
  ⟨some "meta", none, some "conf/settings.json", some "base.d.ts", none⟩

theorem readText_furnished : furnished.readText "conf/settings.json" = .ok repaintedText := by
  refine FileSystem.readText_eq_ok_iff.2 ⟨["conf", "settings.json"], _, rfl, rfl, ?_⟩
  exact FileSystem.fromUTF8?_toUTF8 repaintedText

/-- The tree of the settings. -/
def repaintedRoot : Node :=
  .object [(.text "aliases", tableNode textNode repainted.aliases),
    (.text "suppress", tableNode (listNode textNode) repainted.suppress),
    (.text "output", optionalNode textNode repainted.output)] true

theorem ofText_repaintedText : Document.ofText repaintedText = ⟨repaintedRoot, true⟩ := by
  have htokens : tokens repaintedText =
      [.openObject, .string (some "aliases"), .colon, .openObject,
        .string (some "Color"), .colon, .string (some "string"), .comma,
        .string (some "Number"), .colon, .string (some "bigint"), .comma,
        .string (some "Color"), .colon, .string (some "Paint"), .closeObject, .comma,
        .string (some "suppress"), .colon, .openObject,
        .string (some "qx.html.Flash"), .colon, .openArray, .string (some "play"), .closeArray,
        .closeObject, .comma,
        .string (some "output"), .colon, .string (some "types/out.d.ts"), .closeObject] := by
    decide +kernel
  rw [Document.ofText, htokens]
  rfl

theorem written_repainted : repainted.Written repaintedRoot where
  output := .inl ⟨_, rfl, rfl⟩
  aliases := .inl ⟨_, rfl, rfl⟩
  suppress := .inl ⟨_, rfl, rfl⟩
  baseTemplate := .inr ⟨rfl, rfl⟩

theorem layered_repainting :
    ∃ config, repainting.prepare furnished = .ok (config, .empty "meta") ∧
      config.output = "conf/types/out.d.ts" ∧ config.baseTemplate = some "base.d.ts" ∧
      config.aliases.get? "Number" = some "bigint" ∧ config.aliases.get? "Color" = some "Paint" ∧
      config.aliases.keys = defaultAliases.map Prod.fst ++ ["Color"] ∧
      config.isSuppressed "qx.html.Flash" "play" = true ∧
      config.isSuppressed "qx.html.Flash" "setAttribute" = true := by
  have hlib : Library.load furnished "meta" = .ok (.empty "meta") := load_of_empty rfl
  have hdecode : ∃ s, decode settingsSchema.record repaintedText = .ok s := by
    refine ⟨repainted.settings, decode_eq_ok_iff.2 ?_⟩
    rw [ofText_repaintedText]
    exact ⟨rfl, rfl⟩
  have hsettings : ∀ path, repainting.settings = some path → ∃ text s,
      furnished.readText path = .ok text ∧ decode settingsSchema.record text = .ok s := by
    rintro path ⟨⟩
    obtain ⟨s, hs⟩ := hdecode
    exact ⟨repaintedText, s, readText_furnished, hs⟩
  obtain ⟨file, config, ⟨text, htext, hwritten⟩, hlayered, hprepare, -⟩ :=
    GenerateArgs.exists_layered rfl hlib hsettings
  obtain rfl : repaintedText = text := Except.ok.inj (readText_furnished.symm.trans htext)
  rw [ofText_repaintedText] at hwritten
  obtain rfl : repainted = file := written_repainted.unique hwritten
  refine ⟨config, hprepare, ?_, hlayered.baseTemplate, ?_, ?_, ?_, ?_, ?_⟩
  · rw [hlayered.output]
    decide +kernel
  · rw [hlayered.target]
    decide +kernel
  · rw [hlayered.target]
    decide +kernel
  · rw [hlayered.order]
    decide +kernel
  · exact (hlayered.suppressed _ _).2 (.inr ⟨["play"], by decide +kernel, by decide +kernel⟩)
  · exact (hlayered.suppressed _ _).2 (.inl ⟨["setAttribute"], by decide +kernel, by decide +kernel⟩)

end Ambient
