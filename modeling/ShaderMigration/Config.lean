import ShaderMigration.Conversion
import ShaderMigration.NodeSpec.Build
import ShaderMigration.Toml.Reader
import ShaderMigration.Data.Fields

namespace ShaderMigration

/-- Settings, each with its default.  Names that are not known are passed over. -/
structure Config where
  naming : NamingPolicy := .unique
  parallelTextureJobs : Bool := true
  cleanup : Cleanup.Options := {}
  build : BuildOptions := {}
  /-- The texture processor; without one the usual processor is looked for. -/
  transcoder : Option String := none
  transcoderArguments : List String := []
  outputExtension : String := Texture.defaultExtension
  /-- Directories with sheets and plugins. -/
  directories : List String := []
deriving DecidableEq

namespace Config

/-- Reads a section: a record, or a list of its values in order. -/
def section? (names : List String) (d : Data) : Option Data.Fields :=
  Data.Layout.read? { fields := names.map fun name => ⟨name, []⟩, longLists := true } d

def wordOf? {α : Type} (words : List (String × α)) (d : Data) : Option α :=
  match d with
  | .text word => Entries.find? word words
  | .record [(word, .list [])] => Entries.find? word words
  | .record [(word, .record [])] => Entries.find? word words
  | _ => none

def size? : Data → Option Nat
  | .int n => if 0 ≤ n ∧ n < (Nat.pow 2 64 : Nat) then some n.toNat else none
  | _ => none

def policyWords : List (String × NamingPolicy) := [("unique", .unique), ("verbatim", .verbatim)]

def scopeWords : List (String × TagScope) := [("build", .build), ("document", .document)]

def namingOfData? (d : Data) : Option NamingPolicy := do
  let fields ← section? ["policy"] d
  fields.defaulted "policy" (wordOf? policyWords) .unique

def parallelOfData? (d : Data) : Option Bool := do
  let fields ← section? ["parallel_asset_jobs"] d
  fields.defaulted "parallel_asset_jobs" Data.bool? true

def cleanupOfData? (d : Data) : Option Cleanup.Options := do
  let fields ← section? ["cache_capacity", "include_replacements_as_roots"] d
  return {
    cacheCapacity := ← fields.defaulted "cache_capacity" size? 0
    replacementsAsRoots := ← fields.defaulted "include_replacements_as_roots" Data.bool? true }

def buildOfData? (d : Data) : Option BuildOptions := do
  let fields ← section? ["tag_scope", "deferred_references", "primary_input", "tag_key"] d
  let default : BuildOptions := {}
  return {
    tagScope := ← fields.defaulted "tag_scope" (wordOf? scopeWords) default.tagScope
    deferred := ← fields.defaulted "deferred_references" Data.bool? default.deferred
    primaryInput := ← fields.defaulted "primary_input" Data.text? default.primaryInput
    tagKey := ← fields.defaulted "tag_key" Data.text? default.tagKey }

def texturesOfData? (d : Data) : Option (Option String × List String × String) := do
  let fields ← section? ["transcoder", "transcoder_args", "output_extension"] d
  return (← fields.defaulted "transcoder" (Data.optional? Data.text?) none,
    ← fields.defaulted "transcoder_args" (Data.listOf? Data.text?) [],
    ← fields.defaulted "output_extension" Data.text? Texture.defaultExtension)

def directoriesOfData? (d : Data) : Option (List String) := do
  let fields ← section? ["directories"] d
  fields.defaulted "directories" (Data.listOf? Data.text?) []

def ofData? (d : Data) : Option Config := do
  let fields ← section? ["naming", "conversion", "cleanup", "builder", "assets", "plugins"] d
  let (transcoder, transcoderArguments, outputExtension) ←
    fields.defaulted "assets" texturesOfData? (none, [], Texture.defaultExtension)
  return {
    naming := ← fields.defaulted "naming" namingOfData? .unique
    parallelTextureJobs := ← fields.defaulted "conversion" parallelOfData? true
    cleanup := ← fields.defaulted "cleanup" cleanupOfData? {}
    build := ← fields.defaulted "builder" buildOfData? {}
    transcoder, transcoderArguments, outputExtension
    directories := ← fields.defaulted "plugins" directoriesOfData? [] }

def policyWord : NamingPolicy → String
  | .unique => "unique"
  | .verbatim => "verbatim"

def scopeWord : TagScope → String
  | .build => "build"
  | .document => "document"

def toData (config : Config) : Data :=
  let program := match config.transcoder with
    | some program => [("transcoder", Data.text program)]
    | none => []
  .record [
    ("naming", .record [("policy", .text (policyWord config.naming))]),
    ("conversion", .record [("parallel_asset_jobs", .bool config.parallelTextureJobs)]),
    ("cleanup", .record [("cache_capacity", .int config.cleanup.cacheCapacity),
      ("include_replacements_as_roots", .bool config.cleanup.replacementsAsRoots)]),
    ("builder", .record [("tag_scope", .text (scopeWord config.build.tagScope)),
      ("deferred_references", .bool config.build.deferred),
      ("primary_input", .text config.build.primaryInput), ("tag_key", .text config.build.tagKey)]),
    ("assets", .record (program ++
      [("transcoder_args", .list (config.transcoderArguments.map .text)),
        ("output_extension", .text config.outputExtension)])),
    ("plugins", .record [("directories", .list (config.directories.map .text))])]

/-- Whether the written form of settings reads back as the settings. -/
def readsBack (config : Config) : Bool := ofData? config.toData == some config

def ofText (text : String) : Except MigrationError Config :=
  match (Toml.read? text).bind ofData? with
  | some config => .ok config
  | none => .error .toml

def load (files : Files.Tree) (path : String) : Except MigrationError Config := do
  ofText (← (files.read path).mapError .io)

/-- Reads settings from a file that was asked for; without one, the settings of the usual place, and
the defaults when these cannot be read. -/
def loadOrDefault (files : Files.Tree) (asked : Option String) (usual : String) :
    Except MigrationError Config :=
  match asked with
  | some path => load files path
  | none => .ok ((load files usual).toOption.getD {})

def effectiveTranscoder (config : Config) (env : Texture.Environment) : Option Texture.Transcoder :=
  let found : Option Texture.Transcoder := match config.transcoder with
    | some program => some { program }
    | none => (Texture.Transcoder.discover env).toOption
  found.map fun transcoder =>
    Texture.Transcoder.withExtension { transcoder with arguments := config.transcoderArguments }
      config.outputExtension

end Config

end ShaderMigration
