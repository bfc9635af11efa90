import ShaderMigration.Toml.Quoted
import ShaderMigration.Toml.Section
import ShaderMigration.Toml.Word

namespace ShaderMigration.Toml

def skipBlanks (cs : List Char) : List Char := cs.dropWhile fun c => c == ' ' || c == '\t'

/-- Drops a comment, if there is one; its characters must be fit for a line. -/
def skipComment? : List Char → Option (List Char)
  | '#' :: rest =>
    let tail := rest.dropWhile isLineChar
    match tail with
    | [] => some []
    | '\n' :: _ => some tail
    | '\r' :: '\n' :: _ => some tail
    | _ => none
  | cs => some cs

/-- Drops blanks, comments and line ends, in at most `bound` rounds. -/
def skipLinesWithin? : Nat → List Char → Option (List Char)
  | 0, cs => some cs
  | bound + 1, cs => do
    match ← skipComment? (skipBlanks cs) with
    | '\n' :: rest => skipLinesWithin? bound rest
    | '\r' :: '\n' :: rest => skipLinesWithin? bound rest
    | rest => return rest

def skipLines? (cs : List Char) : Option (List Char) := skipLinesWithin? (cs.length + 1) cs

/-- Drops the rest of a line, which must hold no more than a comment. -/
def endLine? (cs : List Char) : Option (List Char) := do
  match ← skipComment? (skipBlanks cs) with
  | [] => return []
  | '\n' :: rest => return rest
  | '\r' :: '\n' :: rest => return rest
  | _ => none

/-- Whether a character may stand in a key without quotes. -/
def isKeyChar (c : Char) : Bool := c.isAlphanum || c == '_' || c == '-'

def keyPart? (cs : List Char) : Option (String × List Char) :=
  match cs with
  | '"' :: rest => (basic? rest).map fun (text, rest) => (String.ofList text, rest)
  | '\'' :: rest => (literal? rest).map fun (text, rest) => (String.ofList text, rest)
  | _ =>
    let word := cs.takeWhile isKeyChar
    if word.isEmpty then none else some (String.ofList word, cs.drop word.length)

/-- Reads a dotted key of at most `bound` more parts: the path before the last part, and that
part. -/
def keyWithin? : Nat → List Char → Option (List String × String × List Char)
  | 0, _ => none
  | bound + 1, cs => do
    let (part, rest) ← keyPart? (skipBlanks cs)
    match skipBlanks rest with
    | '.' :: rest =>
      let (path, key, rest) ← keyWithin? bound rest
      return (part :: path, key, rest)
    | rest => return ([], part, rest)

def key? (cs : List Char) : Option (List String × String × List Char) :=
  keyWithin? (cs.length + 1) cs

abbrev ValueReader := List Char → Option (Data × List Char)

def arrayItems? (value? : ValueReader) : Nat → List Char → Option (List Data × List Char)
  | 0, _ => none
  | bound + 1, cs => do
    match ← skipLines? cs with
    | ']' :: rest => return ([], rest)
    | cs =>
      let (first, rest) ← value? cs
      match ← skipLines? rest with
      | ']' :: rest => return ([first], rest)
      | ',' :: rest =>
        let (others, rest) ← arrayItems? value? bound rest
        return (first :: others, rest)
      | _ => none

def assignment? (value? : ValueReader) (cs : List Char) :
    Option (List String × String × Data × List Char) := do
  let (path, key, rest) ← key? cs
  match rest with
  | '=' :: rest =>
    let (d, rest) ← value? (skipBlanks rest)
    return (path, key, d, rest)
  | _ => none

def inlineEntries? (value? : ValueReader) : Nat → Section → List Char → Option (Section × List Char)
  | 0, _, _ => none
  | bound + 1, found, cs => do
    match ← skipLines? cs with
    | '\x7d' :: rest => return (found, rest)
    | cs =>
      let (path, key, d, rest) ← assignment? value? cs
      let found ← found.enter? path key d
      match ← skipLines? rest with
      | '\x7d' :: rest => return (found, rest)
      | ',' :: rest => inlineEntries? value? bound found rest
      | _ => none

/-- Reads a value in which at most `depth` arrays and inline tables are nested. -/
def valueWithin? : Nat → ValueReader
  | depth, cs =>
    match depth, cs with
    | depth + 1, '[' :: rest =>
      (arrayItems? (valueWithin? depth) (rest.length + 1) rest).map fun (items, rest) =>
        (.list items, rest)
    | depth + 1, '\x7b' :: rest =>
      (inlineEntries? (valueWithin? depth) (rest.length + 1) .opened rest).map fun (found, rest) =>
        (found.toData, rest)
    | _, '"' :: rest => (quoted? ('"' :: rest)).map fun (text, rest) => (.text (String.ofList text), rest)
    | _, '\'' :: rest => (quoted? ('\'' :: rest)).map fun (text, rest) => (.text (String.ofList text), rest)
    | _, cs =>
      let (word, rest) := splitWord cs
      (word? word).map fun d => (d, rest)

/-- Reads a value; no more than eighty arrays and inline tables may be nested. -/
def value? : ValueReader := valueWithin? 80

inductive Line where
  | header (path : List String) (key : String)
  | nextHeader (path : List String) (key : String)
  | assignment (path : List String) (key : String) (d : Data)

/-- Reads one line that is not blank. -/
def line? : List Char → Option (Line × List Char)
  | '[' :: '[' :: rest => do
    let (path, key, rest) ← key? rest
    match rest with
    | ']' :: ']' :: rest => return (.nextHeader path key, rest)
    | _ => none
  | '[' :: rest => do
    let (path, key, rest) ← key? rest
    match rest with
    | ']' :: rest => return (.header path key, rest)
    | _ => none
  | cs => do
    let (path, key, d, rest) ← assignment? value? cs
    return (.assignment path key d, rest)

def linesWithin? : Nat → List Char → Option (List Line)
  | 0, cs => do
    let rest ← skipLines? cs
    if rest.isEmpty then some [] else none
  | bound + 1, cs => do
    let rest ← skipLines? cs
    if rest.isEmpty then return []
    let (line, rest) ← line? rest
    let rest ← endLine? rest
    return line :: (← linesWithin? bound rest)

def takeAssignments : List Line → List (List String × String × Data)
  | .assignment path key d :: rest => (path, key, d) :: takeAssignments rest
  | _ => []

def fill? (assignments : List (List String × String × Data)) (found : Section) : Option Section :=
  assignments.foldlM (fun found (path, key, d) => found.enter? path key d) found

/-- Enters the tables that headers open, each with the assignments behind it. -/
def enterTables? : List Line → Section → Option Section
  | [], root => some root
  | .assignment _ _ _ :: rest, root => enterTables? rest root
  | .header path key :: rest, root => do
    enterTables? rest (← root.fillTable? path key (fill? (takeAssignments rest)))
  | .nextHeader path key :: rest, root => do
    enterTables? rest (← root.fillNext? path key (fill? (takeAssignments rest)))

/-- Reads a TOML text; none when it is not well formed or defines a key twice. -/
def read? (text : String) : Option Data := do
  let cs := match text.toList with
    | '\ufeff' :: rest => rest
    | cs => cs
  let lines ← linesWithin? cs.length cs
  let root ← fill? (takeAssignments lines) .opened
  return (← enterTables? lines root).toData

end ShaderMigration.Toml
