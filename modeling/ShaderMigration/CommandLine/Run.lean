import ShaderMigration.Catalog
import ShaderMigration.CommandLine.Arguments
import ShaderMigration.Config
import ShaderMigration.NodeSpec.Document
import ShaderMigration.Scene.Document
import ShaderMigration.Scene.Live

namespace ShaderMigration.CommandLine

structure Surroundings where
  env : Texture.Environment := {}
  /-- The answers of programs to their arguments, given the files. -/
  run : Texture.Environment → Files.Tree → String → List String →
    Except Files.FileError Texture.ExitStatus
  usualConfig : String
  supply : Supply

/-- The files and the two streams of text that a command has written, also when it fails half-way. -/
structure Console where
  files : Files.Tree
  out : String := ""
  err : String := ""

abbrev Session (α : Type) := ExceptT MigrationError (StateM Console) α

def printLine (line : String) : Session Unit :=
  modify fun console => { console with out := console.out ++ line ++ "\n" }

def note (line : String) : Session Unit :=
  modify fun console => { console with err := console.err ++ line ++ "\n" }

def notes (lines : List String) : Session Unit := lines.forM note

def orFail {α : Type} (result : Except MigrationError α) : Session α := fun console =>
  (result, console)

def readFile (path : String) : Session String := fun console =>
  ((console.files.read path).mapError .io, console)

def writeFile (path content : String) : Session Unit := fun console =>
  match console.files.write path content with
  | .ok files => (.ok (), { console with files })
  | .error cause => (.error (.io cause), console)

def readScene (path : String) : Session Scene := do
  match Scene.load? (← readFile path) with
  | some scene => return scene
  | none => throw .json

/-- Writes a scene to a file, or as a line when no file is named. -/
def writeScene (scene : Scene) : Option String → Session Unit
  | some path => writeFile path scene.save
  | none => printLine scene.save

def catalogOf (files : Files.Tree) (directories : List String) : Catalog :=
  directories.foldl (fun catalog directory => catalog.loadDirectory files directory) {}

/-- Declares node types that a scene does not know yet. -/
def declareMissing (scene : Scene) (schemas : List Schema) : Scene :=
  schemas.foldl
    (fun scene schema => if scene.schemas.contains schema.type then scene else scene.register schema)
    scene

/-- The rules of a sheet, which is named by a path or an id, and the scene with the node types that
the sheet declares. -/
def resolveSheet (files : Files.Tree) (catalog : Catalog) (transcoder : Option Texture.Transcoder)
    (sheet : String) (scene : Scene) : Except MigrationError (Sheet LiveScene × Scene) := do
  if files.isFile sheet then
    return (← (← SheetDocument.load files sheet).compile transcoder, scene)
  else
    return (← catalog.sheet sheet transcoder, declareMissing scene (catalog.schemas sheet))

/-- Repoints the consumers of the replaced nodes, unless that is not wanted. -/
def cleanUpIf (wanted : Bool) (options : Cleanup.Options) (pairs : List Replacement)
    (live : LiveScene) : Except MigrationError (Option Cleanup.Report × LiveScene) :=
  if wanted then
    match cleanUp? LiveScene.host options pairs live with
    | some (report, live) => .ok (some report, live)
    | none => .error (.conversion "a network depends on itself")
  else .ok (none, live)

def cleanupLines : Option Cleanup.Report → List String
  | none => []
  | some report =>
    s!"rewired {report.rewired.length} consumer edge(s)" ::
      report.failures.map fun failure => s!"  rewire: {failure.message}"

def conversionLines (report : ConversionReport) : List String :=
  s!"converted {report.converted} node(s), {report.failed} failed" ::
    (report.mappingFailures.map fun failure => s!"  attribute: {failure.message}") ++
    report.hookFailures.map fun failure => s!"  hook: {failure.message}"

def convert (around : Surroundings) (config : Config) (catalog : Catalog) (scene sheet : String)
    (output : Option String) (cleansUp isStrict : Bool) : Session Unit := do
  let found ← readScene scene
  let files := (← get).files
  let transcoder := config.effectiveTranscoder around.env
  let (rules, found) ← orFail (resolveSheet files catalog transcoder sheet found)
  let migrator : Migrator LiveScene :=
    ⟨LiveScene.host, rules, ⟨around.env, files, around.run around.env files⟩⟩
  let (report, run) := migrator.autoConvert ⟨{ policy := config.naming }, ⟨found, around.supply⟩⟩
  let (cleanup, live) ← orFail (cleanUpIf cleansUp config.cleanup report.pairs run.state)
  writeScene live.scene output
  notes (conversionLines report)
  notes (cleanupLines cleanup)
  if isStrict && !(report.isClean && cleanup.all Cleanup.Report.isClean) then
    throw (.conversion "conversion finished with failures")

def buildLines (output : BuildOutput) : List String :=
  s!"built {output.created.length} node(s) from {output.roots.length} root(s)" ::
    (output.unresolved.map fun reference => s!"  unresolved: {reference.message}") ++
    output.failures.map fun failure => s!"  failed: {failure.message}"

def build (around : Surroundings) (config : Config) (scene tree : String) (output : Option String)
    (isStrict : Bool) : Session Unit := do
  let found ← readScene scene
  match NodeTree.load? (← readFile tree) with
  | none => throw .json
  | some tree =>
    match tree.build LiveScene.host config.build ⟨found, around.supply⟩ with
    | (.error cause, _) => throw (.host cause)
    | (.ok built, live) =>
      writeScene live.scene output
      notes (buildLines built)
      if isStrict && !built.isClean then throw (.conversion "build finished with failures")

def listingLine (info : SheetInfo) : String :=
  let (major, minor, patch) := info.version
  s!"{info.id}\t{major}.{minor}.{patch}\t{info.kind}\t{info.description}"

def perform (around : Surroundings) (request : Request) : Session Unit := do
  let files := (← get).files
  let config ← orFail (Config.loadOrDefault files request.config around.usualConfig)
  let catalog := catalogOf files (config.directories ++ request.pluginDirs)
  match request.command with
  | .convert scene sheet output cleansUp isStrict =>
    convert around config catalog scene sheet output cleansUp isStrict
  | .build scene tree output isStrict => build around config scene tree output isStrict
  | .sheets => (catalog.list.map listingLine).forM printLine

def versionLine : String := "shadeport-cli 0.3.0"

def helpText : String := "Migrate shading networks between renderers

Usage: shadeport-cli [OPTIONS] <COMMAND>

Commands:
  convert  Convert every node covered by a sheet and repoint its consumers
  build    Build a node tree description into a scene
  sheets   List available sheets
  help     Print this message or the help of the given subcommand(s)

Options:
  -c, --config <CONFIG>          Config file (defaults to the platform config directory)
  -P, --plugin-dir <PLUGIN_DIRS> Extra directory to load sheet plugins and documents from
  -v, --verbose...               Raise log verbosity (-v info, -vv debug)
  -h, --help                     Print help
  -V, --version                  Print version"

def run (around : Surroundings) (arguments : List String) : Session Unit :=
  match readRequest arguments with
  | .ok request => perform around request
  | .error .help => printLine helpText
  | .error .version => printLine versionLine
  | .error .malformed => throw (.invalidArgument .commandLine)

end ShaderMigration.CommandLine
