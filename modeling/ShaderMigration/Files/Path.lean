namespace ShaderMigration.Files

def split (path : List Char) : List (List Char) :=
  path.foldr (fun c parts =>
    match parts with
    | [] => [[c]]
    | part :: rest => if c == '/' then [] :: part :: rest else (c :: part) :: rest) [[]]

def isAbsolute (path : String) : Bool := path.toList.head? == some '/'

/-- The names of a path, without empty ones and without dots.  The first name of an absolute path is that
of the root, a slash. -/
def names (path : String) : List String :=
  let below := ((split path.toList).filter fun name => !name.isEmpty && name != ['.']).map String.ofList
  if isAbsolute path then "/" :: below else below

def dropTrailing (path : List Char) : List Char :=
  path.foldr (fun c kept =>
    match kept with
    | [] => if c == '/' then [] else [c]
    | ['.'] => if c == '/' then [] else [c, '.']
    | kept => c :: kept) []

def splitLast (path : List Char) : List Char × List Char :=
  let shortened := dropTrailing path
  let name := (shortened.reverse.takeWhile (· != '/')).reverse
  (shortened.take (shortened.length - name.length), name)

/-- The last name of a path, if it is neither a dot nor two dots. -/
def fileName? (path : String) : Option String :=
  let name := (splitLast path.toList).2
  if name.isEmpty || name == ['.'] || name == ['.', '.'] then none else some (String.ofList name)

/-- Splits a name at its last dot; a dot at the start does not count. -/
def splitDot (name : List Char) : List Char × Option (List Char) :=
  let extension := (name.reverse.takeWhile (· != '.')).reverse
  let stem := name.take (name.length - extension.length - 1)
  if extension.length = name.length || stem.isEmpty then (name, none) else (stem, some extension)

def stem? (path : String) : Option String :=
  (fileName? path).map fun name => String.ofList (splitDot name.toList).1

def extension? (path : String) : Option String :=
  (fileName? path).bind fun name => (splitDot name.toList).2.map String.ofList

/-- The path with another extension, and without one when the new extension is empty.  A path that
names no file stays as it is. -/
def withExtension (path extension : String) : String :=
  let (before, name) := splitLast path.toList
  if (fileName? path).isNone then path
  else
    let kept := before ++ (splitDot name).1
    String.ofList (if extension.isEmpty then kept else kept ++ '.' :: extension.toList)

/-- Puts a name behind a path, with one slash between them; an absolute name stands alone. -/
def join (path name : String) : String :=
  if isAbsolute name then name
  else if path.isEmpty || path.toList.getLast? == some '/' then path ++ name
  else path ++ "/" ++ name

end ShaderMigration.Files
