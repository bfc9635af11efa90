import ShaderMigration.Arnold.Schemas
import ShaderMigration.Arnold.Sheet
import ShaderMigration.Sheet.Document

namespace ShaderMigration

inductive SheetSource where
  | arnold
  | document (sheet : SheetDocument) (id path : String)

structure SheetInfo where
  id : String
  name : String
  version : Nat × Nat × Nat
  kind : String
  description : String
deriving DecidableEq

namespace SheetSource

def id : SheetSource → String
  | arnold => "arnold_to_redshift"
  | document _ id _ => id

def renderers : SheetSource → String × String
  | arnold => ("arnold", "redshift")
  | document _ _ _ => ("any", "any")

def info : SheetSource → SheetInfo
  | arnold => ⟨"arnold_to_redshift", "Arnold to Redshift", (0, 1, 0), "Native", "arnold to redshift"⟩
  | document sheet id path =>
    ⟨id, id, (0, 1, 0), "Document", sheet.description.getD s!"sheet document {path}"⟩

/-- The node types that a sheet creates, as far as it declares them. -/
def schemas : SheetSource → List Schema
  | arnold => Arnold.schemas
  | document _ _ _ => []

def sheet {σ : Type} (source : SheetSource) (transcoder : Option Texture.Transcoder) :
    Except MigrationError (Sheet σ) :=
  match source with
  | arnold => .ok (Arnold.toRedshift transcoder)
  | document sheet _ _ => sheet.compile transcoder

/-- The sheet of a file.  Its id is its name, or the name of the file without the extension. -/
def load (files : Files.Tree) (path : String) : Except MigrationError SheetSource := do
  let sheet ← SheetDocument.load files path
  match sheet.name.or (Files.stem? path) with
  | some id => return document sheet id path
  | none => throw (.sheet (.noIdentifier path))

end SheetSource

/-- Sheets by id, in the order in which their ids were first registered.  A later sheet takes the place
of an earlier one with its id. -/
abbrev Catalog := Table String SheetSource

namespace Catalog

def register (catalog : Catalog) (source : SheetSource) : Catalog := catalog.insert source.id source

def list (catalog : Catalog) : List SheetInfo := catalog.values.map SheetSource.info

def sheet {σ : Type} (catalog : Catalog) (id : String) (transcoder : Option Texture.Transcoder) :
    Except MigrationError (Sheet σ) :=
  match catalog.find? id with
  | some source => source.sheet transcoder
  | none => .error (.sheetNotFound id)

def schemas (catalog : Catalog) (id : String) : List Schema :=
  match catalog.find? id with
  | some source => source.schemas
  | none => []

/-- Loads a dynamic library, of which there are none that can be loaded. -/
def loadLibrary (_path : String) : Except MigrationError SheetSource := .error .library

def loadFile? (files : Files.Tree) (path : String) : Option (Except MigrationError SheetSource) :=
  match Files.extension? path with
  | some "dll" => some (loadLibrary path)
  | some "so" => some (loadLibrary path)
  | some "dylib" => some (loadLibrary path)
  | some "toml" => some (SheetSource.load files path)
  | some "json" => some (SheetSource.load files path)
  | _ => none

/-- The paths of the files in a directory, in order; a directory that is missing has none. -/
def filesOf (files : Files.Tree) (directory : String) : List String :=
  if files.isDirectory directory then
    (((files.entries directory).toOption.getD []).map (Files.join directory)).filter files.isFile
  else []

/-- The sheets of a directory; files that cannot be loaded are passed over. -/
def sheetsOf (files : Files.Tree) (directory : String) : List SheetSource :=
  (filesOf files directory).filterMap fun path =>
    (loadFile? files path).bind fun loaded => loaded.toOption

def loadDirectory (catalog : Catalog) (files : Files.Tree) (directory : String) : Catalog :=
  (sheetsOf files directory).foldl register catalog

end Catalog

end ShaderMigration
