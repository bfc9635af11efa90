import ShaderMigration.Files.Tree

namespace ShaderMigration.Files.Glob

structure Range where
  low : Char
  high : Char
deriving DecidableEq

def Range.holds (range : Range) (c : Char) : Bool := range.low ≤ c && c ≤ range.high

/-- `?`, `*`, a name `**`, and a class `[…]` or `[!…]`; all else stands for itself. -/
inductive Part where
  | char (c : Char)
  | anyChar
  | anyText
  | anyDirectories
  | oneOf (ranges : List Range)
  | noneOf (ranges : List Range)
deriving DecidableEq

def ranges : List Char → List Range
  | low :: '-' :: high :: rest => ⟨low, high⟩ :: ranges rest
  | c :: rest => ⟨c, c⟩ :: ranges rest
  | [] => []

/-- Splits after the first closing bracket that is not the first character. -/
def splitClass? : List Char → Option (List Char × List Char)
  | [] => none
  | first :: rest =>
    let inside := rest.takeWhile (· != ']')
    match rest.drop inside.length with
    | [] => none
    | _ :: after => some (first :: inside, after)

/-- Reads the part of a class behind its opening bracket, and what follows it. -/
def class? : List Char → Option (Part × List Char)
  | '!' :: rest => (splitClass? rest).map fun (inside, after) => (.noneOf (ranges inside), after)
  | rest => (splitClass? rest).map fun (inside, after) => (.oneOf (ranges inside), after)

theorem splitClass?_length {cs inside after : List Char} (h : splitClass? cs = some (inside, after)) :
    after.length < cs.length := by
  unfold splitClass? at h
  split at h
  next => simp at h
  next first rest =>
    dsimp only at h
    split at h
    next => simp at h
    next head tail hdrop =>
      have hlen := congrArg List.length hdrop
      simp only [Option.some.injEq, Prod.mk.injEq] at h
      rw [List.length_drop, List.length_cons] at hlen
      rw [← h.2, List.length_cons]
      omega

theorem class?_length {cs after : List Char} {part : Part} (h : class? cs = some (part, after)) :
    after.length < cs.length := by
  unfold class? at h
  split at h
  next rest =>
    obtain ⟨⟨inside, tail⟩, hs, heq⟩ := Option.map_eq_some_iff.mp h
    cases heq
    have := splitClass?_length hs
    simp only [List.length_cons]
    omega
  next =>
    obtain ⟨⟨inside, tail⟩, hs, heq⟩ := Option.map_eq_some_iff.mp h
    cases heq
    exact splitClass?_length hs

/-- Reads a pattern.  `start` tells whether a name begins here: two stars must be a whole name, three
are refused, and a bracket must be closed. -/
def parse? (start : Bool) : List Char → Option (List Part)
  | [] => some []
  | '*' :: '*' :: '*' :: _ => none
  | '*' :: '*' :: '/' :: rest => if start then (parse? true rest).map (.anyDirectories :: ·) else none
  | '*' :: '*' :: rest => if start && rest.isEmpty then some [.anyDirectories] else none
  | '*' :: rest => (parse? false rest).map (.anyText :: ·)
  | '?' :: rest => (parse? false rest).map (.anyChar :: ·)
  | '[' :: rest =>
    match closed : class? rest with
    | some (part, after) =>
      have : after.length < rest.length := class?_length closed
      (parse? false after).map (part :: ·)
    | none => none
  | c :: rest => (parse? (c == '/') rest).map (.char c :: ·)
termination_by cs => cs.length

def fits : List Part → List Char → Bool
  | [], [] => true
  | [], _ :: _ => false
  | .anyText :: parts, [] => fits parts []
  | .anyText :: parts, c :: cs => fits parts (c :: cs) || fits (.anyText :: parts) cs
  | .anyDirectories :: parts, [] => fits parts []
  | .anyDirectories :: parts, c :: cs => fits parts (c :: cs) || fits (.anyDirectories :: parts) cs
  | .char p :: parts, c :: cs => p == c && fits parts cs
  | .anyChar :: parts, _ :: cs => fits parts cs
  | .oneOf rs :: parts, c :: cs => rs.any (·.holds c) && fits parts cs
  | .noneOf rs :: parts, c :: cs => !rs.any (·.holds c) && fits parts cs
  | _ :: _, [] => false
termination_by parts cs => (parts.length, cs.length)

/-- The name that a pattern without wildcards stands for. -/
def literal? : List Part → Option (List Char)
  | [] => some []
  | .char c :: rest => (literal? rest).map (c :: ·)
  | _ :: _ => none

abbrev NamePattern := List Part

/-- The patterns of the names of a path; a slash at the end begins no further name. -/
def namePatterns? (pattern : List Char) : Option (List NamePattern) :=
  let parts := split pattern
  let parts := if parts.getLast? == some [] && parts.length != 1 then parts.dropLast else parts
  parts.mapM (parse? true)

/-- The path of an entry of a directory; the working directory has no name in it. -/
def extend (path name : String) : String := if path == "." then name else join path name

/-- The dot names that a pattern fits; only a pattern that starts with a dot can. -/
def dotNames (pattern : NamePattern) : List String :=
  if pattern.head? == some (.char '.') then ["..", "."].filter fun name => fits pattern name.toList
  else []

/-- The paths below a directory that a list of name patterns leads to, in order, at most `depth`
names deep. -/
def expand (tree : Tree) : Nat → List NamePattern → String → List String
  | 0, _, _ => []
  | _ + 1, [], path => [path]
  | depth + 1, pattern :: rest, path =>
    match literal? pattern with
    | some name =>
      let next := extend path (String.ofList name)
      let isDot := name == ['.'] || name == ['.', '.']
      if (if isDot then tree.isDirectory path else tree.isPresent next) then
        expand tree depth rest next
      else []
    | none =>
      let inside := match tree.entries path with
        | .ok names => names
        | .error _ => []
      if pattern.contains .anyDirectories then
        inside.flatMap fun name =>
          let next := extend path name
          if tree.isDirectory next then
            let here := if rest.isEmpty then [next] else []
            let below := expand tree depth (pattern :: rest) next
            let beyond := match rest with
              | [] => []
              | later :: others =>
                if fits later name.toList then expand tree depth others next else []
            here ++ beyond ++ below
          else
            match rest with
            | [] => []
            | later :: others => if fits later name.toList then expand tree depth others next else []
      else
        let dots := if tree.isDirectory path then dotNames pattern else []
        (dots.flatMap fun name => expand tree depth rest (join path name)) ++
          (inside.filter fun name => fits pattern name.toList).flatMap fun name =>
            expand tree depth rest (extend path name)

/-- Drops all but the last of several `**` in a row. -/
def collapse : List NamePattern → List NamePattern
  | first :: second :: rest =>
    if first.contains .anyDirectories && second.contains .anyDirectories then
      collapse (second :: rest)
    else first :: collapse (second :: rest)
  | patterns => patterns

/-- A bound on the number of names in a path that a pattern can lead to. -/
def bound (tree : Tree) (patterns : List NamePattern) : Nat :=
  patterns.length + tree.files.foldl (fun n file => n + file.1.length) 1

/-- Where the search for a pattern starts: the root for an absolute one, else the working directory. -/
def startOf (pattern : String) : String := if isAbsolute pattern then "/" else "."

def behindStart (pattern : String) : List Char :=
  if isAbsolute pattern then pattern.toList.tail else pattern.toList

/-- The paths that a pattern leads to, in order; none when it is no pattern.  A pattern that ends in a
slash leads to directories only. -/
def matches? (tree : Tree) (pattern : String) : Option (List String) := do
  let _ ← parse? true pattern.toList
  let patterns ← namePatterns? (behindStart pattern)
  let found := expand tree (bound tree patterns) (collapse patterns) (startOf pattern)
  return if pattern.toList.getLast? == some '/' then found.filter tree.isDirectory else found

end ShaderMigration.Files.Glob
