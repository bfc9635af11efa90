import ShaderMigration.CommandLine.Run
import ShaderMigration.Processor.Run

namespace ShaderMigration.CommandLine

/-- The files below a directory, by path, with at most `depth` directories in each other.  A file
whose content is no text is left out. -/
def takeIn : Nat → String → IO (List (String × String))
  | 0, _ => return []
  | depth + 1, directory => do
    let place ← IO.FS.realPath directory
    let mut found := []
    for entry in ← place.readDir do
      let path := if directory == "." then entry.fileName else Files.join directory entry.fileName
      if ← entry.path.isDir then found := found ++ (← takeIn depth path)
      else
        match ← (IO.FS.readFile entry.path).toBaseIO with
        | .ok content => found := found ++ [(path, content)]
        | .error _ => pure ()
    return found

/-- The variables that texts name, as far as they are set. -/
def variablesNamed (texts : List String) : IO Texture.Environment := do
  let named := texts.flatMap fun text => (Texture.Piece.split text.toList).filterMap Texture.Piece.nameOf?
  let names := (Texture.dataVariable :: named.map String.ofList).eraseDups
  let values ← names.mapM fun name => do return (← IO.getEnv name).map fun value => (name, value)
  return ⟨values.filterMap id⟩

def randomSupply : IO Supply := do
  let words ← (List.range 8).mapM fun _ => IO.rand 0 65535
  let start := words.foldl (fun n word => n * 65536 + word) 0
  return { id := fun n => .ofNat (start + n) }

def putOut (before after : Files.Tree) : IO Unit :=
  for (place, content) in after.files do
    if before.content? place != some content then
      IO.FS.writeFile (String.intercalate "/" place) content

end ShaderMigration.CommandLine

open ShaderMigration CommandLine in
def main (arguments : List String) : IO UInt32 := do
  let pairs ← takeIn 8 "."
  let files := Files.Tree.ofPairs pairs
  let env ← variablesNamed (arguments ++ pairs.map Prod.snd)
  let around : Surroundings := {
    env, run := Processor.run, usualConfig := "xdg/shadeport/config.toml"
    supply := ← randomSupply }
  let (result, console) := run around arguments { files }
  putOut files console.files
  (← IO.getStdout).putStr console.out
  (← IO.getStderr).putStr console.err
  match result with
  | .ok () => return 0
  | .error cause =>
    (← IO.getStderr).putStrLn ("Error: " ++ cause.message)
    return 1
