import ShaderMigration.Error
import ShaderMigration.Files.Glob
import ShaderMigration.Text.Blank
import ShaderMigration.Texture.Pattern
import ShaderMigration.Value.Extract

namespace ShaderMigration.Texture

def defaultExtension : String := "rstexbin"

def dataVariable : String := "REDSHIFT_COREDATAPATH"

/-- An external processor: its program, the arguments before the file, and the extension of the
files that it writes. -/
structure Transcoder where
  program : String
  arguments : List String := []
  extension : String := defaultExtension
deriving DecidableEq, Repr

namespace Transcoder

/-- Sets the extension; dots in front of it do not count. -/
def withExtension (transcoder : Transcoder) (extension : String) : Transcoder :=
  { transcoder with extension := String.ofList (extension.toList.dropWhile (· == '.')) }

def discover (env : Environment) : Except MigrationError Transcoder :=
  match env.find? dataVariable with
  | some root => .ok { program := Files.join (Files.join root "bin") "redshiftTextureProcessor" }
  | none => .error (.invalidArgument (.variableNotSet dataVariable))

def outputPath (transcoder : Transcoder) (input : String) : String :=
  Files.withExtension input transcoder.extension

end Transcoder

structure Job where
  transcoder : Transcoder
  path : String
deriving DecidableEq, Repr

/-- How a processor ended: with a code, or by a signal. -/
inductive ExitStatus where
  | code (n : Nat)
  | signal (n : Nat)
deriving DecidableEq

def signals : List (Nat × String) :=
  [(1, "SIGHUP"), (2, "SIGINT"), (9, "SIGKILL"), (10, "SIGUSR1"), (12, "SIGUSR2"), (13, "SIGPIPE"),
    (14, "SIGALRM"), (15, "SIGTERM")]

def ExitStatus.message : ExitStatus → String
  | code n => s!"exit status: {n}"
  | signal n =>
    match signals.lookup n with
    | some name => s!"signal: {n} ({name})"
    | none => s!"signal: {n}"

/-- The files that a job wrote, and those on which the processor failed, each with the reason. -/
structure Report where
  produced : List String := []
  failed : List (String × String) := []
deriving DecidableEq, Repr

/-- What jobs meet outside: variables, files, and the answers of programs to their arguments. -/
structure Workshop where
  env : Environment := {}
  files : Files.Tree := {}
  run : String → List String → Except Files.FileError ExitStatus

namespace Job

def pattern (job : Job) (env : Environment) : String := expandTiles (expandVars env job.path)

def describe (job : Job) (env : Environment) : String := s!"transcode '{job.pattern env}'"

def inputs (job : Job) (env : Environment) (files : Files.Tree) : Except MigrationError (List String) :=
  match Files.Glob.matches? files (job.pattern env) with
  | some paths => .ok paths
  | none => .error .pattern

/-- Runs the processor on one file and adds the outcome to a report. -/
def process (job : Job) (workshop : Workshop) (report : Report) (input : String) :
    Except MigrationError Report :=
  match workshop.run job.transcoder.program (job.transcoder.arguments ++ [input]) with
  | .error e => .error (.io e)
  | .ok (.code 0) =>
    .ok { report with produced := report.produced ++ [job.transcoder.outputPath input] }
  | .ok status =>
    .ok { report with failed := report.failed ++ [(input, "processor exited with " ++ status.message)] }

/-- Runs the processor on every file of a job; a program that cannot be started ends the job. -/
def run (job : Job) (workshop : Workshop) : Except MigrationError Report := do
  (← job.inputs workshop.env workshop.files).foldlM (job.process workshop) {}

end Job

/-- The job for the texture path stored in an attribute, and none when the path is blank. -/
def jobOfAttribute (transcoder : Transcoder) (attr : String) (reads : Reads) (node : NodeId) :
    Except MigrationError (Option Job) := do
  let value ← (reads.getStatic node attr).mapError .host
  let path ← value.asText.mapError fun e => .conversion e.message
  return if path.toList.all Text.isBlank then none else some ⟨transcoder, path⟩

end ShaderMigration.Texture
