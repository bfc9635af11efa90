import ShaderMigration.Entries
import ShaderMigration.Files.Path

namespace ShaderMigration.Files

inductive FileError where
  | notFound | notDirectory | isDirectory | permissionDenied
deriving DecidableEq

def FileError.message : FileError → String
  | notFound => "No such file or directory (os error 2)"
  | notDirectory => "Not a directory (os error 20)"
  | isDirectory => "Is a directory (os error 21)"
  | permissionDenied => "Permission denied (os error 13)"

/-- Files by their places.  A place is a list of names, counted from the working directory, or from the
root if the first name is a slash; a file that is reached both ways has two places.  A directory exists
when a file lies below it.  A path is followed name by name, so a path through something that is no
directory leads nowhere. -/
structure Tree where
  files : List (List String × String) := []

namespace Tree

def ofPairs (pairs : List (String × String)) : Tree :=
  ⟨Entries.ofPairs (pairs.map fun pair => (names pair.1, pair.2))⟩

def content? (tree : Tree) (place : List String) : Option String := Entries.find? place tree.files

def root : List String := ["/"]

/-- The working directory and the root are there without a file. -/
def isDirectoryAt (tree : Tree) (place : List String) : Bool :=
  place.isEmpty || place == root ||
    tree.files.any fun file => place.isPrefixOf file.1 && file.1.length != place.length

/-- What lies directly in a directory; the root lies in none. -/
def entriesAt (tree : Tree) (place : List String) : List String :=
  (((tree.files.filterMap fun file =>
    if place.isPrefixOf file.1 then file.1[place.length]? else none).filter (· != "/")).eraseDups).mergeSort
      fun a b => decide (a ≤ b)

/-- The directory that a place lies in.  The root lies in itself; the directory above the working
directory has no place but its own one from the root. -/
def above? (place : List String) : Option (List String) :=
  if place.isEmpty then none else if place == root then some root else some place.dropLast

/-- Follows names from a place; the last of them need not exist. -/
def follow (tree : Tree) (place : List String) : List String → Except FileError (List String)
  | [] => .ok place
  | name :: rest =>
    if tree.isDirectoryAt place then
      if name == ".." then
        match above? place with
        | some outer => follow tree outer rest
        | none => .error .notFound
      else follow tree (place ++ [name]) rest
    else if (tree.content? place).isSome then .error .notDirectory
    else .error .notFound

/-- The place that a path leads to.  A path that ends in a slash or a dot leads to a directory. -/
def locate (tree : Tree) (path : String) : Except FileError (List String) := do
  if path.isEmpty then throw .notFound
  let place ← tree.follow [] (names path)
  if dropTrailing path.toList != path.toList && (tree.content? place).isSome then throw .notDirectory
  return place

def isFile (tree : Tree) (path : String) : Bool :=
  match tree.locate path with
  | .ok place => (tree.content? place).isSome
  | .error _ => false

def isDirectory (tree : Tree) (path : String) : Bool :=
  match tree.locate path with
  | .ok place => tree.isDirectoryAt place
  | .error _ => false

def isPresent (tree : Tree) (path : String) : Bool := tree.isFile path || tree.isDirectory path

def read (tree : Tree) (path : String) : Except FileError String := do
  let place ← tree.locate path
  match tree.content? place with
  | some content => return content
  | none => throw (if tree.isDirectoryAt place then .isDirectory else .notFound)

def entries (tree : Tree) (path : String) : Except FileError (List String) := do
  let place ← tree.locate path
  if tree.isDirectoryAt place then return tree.entriesAt place
  else throw (if (tree.content? place).isSome then .notDirectory else .notFound)

def write (tree : Tree) (path content : String) : Except FileError Tree := do
  let place ← tree.locate path
  if tree.isDirectoryAt place then throw .isDirectory
  if !tree.isDirectoryAt place.dropLast then throw .notFound
  if dropTrailing path.toList != path.toList then throw .isDirectory
  return ⟨Entries.put place content tree.files⟩

end Tree

end ShaderMigration.Files
