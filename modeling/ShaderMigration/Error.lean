import ShaderMigration.Files.Tree
import ShaderMigration.Host
import ShaderMigration.Value.Literal

namespace ShaderMigration

inductive SheetError where
  | targetAndInPlace (source : String)
  | literal (source : String) (cause : LiteralError)
  | noTranscoder (source attr : String)
  | unsupportedFormat (path : String)
  | noIdentifier (path : String)

def SheetError.message : SheetError → String
  | targetAndInPlace source => s!"rule for '{source}' has a target type and in_place set"
  | literal source cause => s!"rule for '{source}': {cause.message}"
  | noTranscoder source attr =>
    s!"rule for '{source}' transcodes '{attr}' but no texture transcoder is configured"
  | unsupportedFormat path => s!"unsupported sheet format: {path}"
  | noIdentifier path => s!"cannot derive a sheet id from {path}"

/-- What is wrong with the way the program is called. -/
inductive ArgumentError where
  | variableNotSet (name : String)
  | commandLine
deriving DecidableEq

def ArgumentError.message : ArgumentError → String
  | variableNotSet name => s!"{name} is not set; configure [assets] transcoder explicitly"
  | commandLine => "the command line cannot be read"

/-- Why an operation on sheets, files, plugins or a whole scene fails. -/
inductive MigrationError where
  | io (cause : Files.FileError)
  | json
  | toml
  | tomlWrite
  | library
  | pattern
  | host (cause : HostError)
  | sheetNotFound (id : String)
  | sheet (cause : SheetError)
  | conversion (text : String)
  | invalidArgument (cause : ArgumentError)

def MigrationError.message : MigrationError → String
  | io cause => "I/O error: " ++ cause.message
  | json => "JSON parsing error: "
  | toml => "TOML parsing error: "
  | tomlWrite => "TOML writing error: "
  | library => "Libloading error: "
  | pattern => "Glob pattern error:"
  | host cause => "Host error: " ++ cause.message
  | sheetNotFound id => s!"Plugin error: Sheet '{id}' not found"
  | sheet cause => "Sheet error: " ++ cause.message
  | conversion text => "Conversion error: " ++ text
  | invalidArgument cause => "Invalid argument: " ++ cause.message

end ShaderMigration
