namespace ShaderMigration.Processor

inductive Fragment where
  | char (c : Char)
  | quoted (c : Char)
  | variable (name : String) (isQuoted : Bool)
  /-- A pair of quotes, which makes a word even when nothing is between them. -/
  | quotes
deriving DecidableEq

abbrev Word := List Fragment

inductive Token where
  | word (w : Word)
  | separator (text : String)
deriving DecidableEq

inductive Command where
  | simple (words : List Word)
  | negation (command : Command)
  | both (first second : Command)
  | either (first second : Command)
  | sequence (commands : List Command)
  | conditional (test yes no : Command)
  | choice (subject : Word) (branches : List (List Word × Command))

def isNameChar (c : Char) : Bool := c.isAlphanum || c == '_'

/-- Splits off the name of a variable behind a dollar sign: a name in braces, a single digit or sign,
or the longest run of name characters. -/
def variableName : List Char → String × List Char
  | [] => ("", [])
  | '\x7b' :: rest =>
    let name := rest.takeWhile (· != '\x7d')
    (String.ofList name, rest.drop (name.length + 1))
  | c :: rest =>
    if c.isDigit || c == '#' || c == '@' || c == '*' || c == '?' || c == '$' then
      (String.singleton c, rest)
    else
      let name := (c :: rest).takeWhile isNameChar
      (String.ofList name, (c :: rest).drop name.length)

/-- The fragments of a variable behind a dollar sign, and what follows it. -/
def variableFragment (isQuoted : Bool) (cs : List Char) : List Fragment × List Char :=
  let (name, rest) := variableName cs
  if name.isEmpty then ([if isQuoted then .quoted '$' else .char '$'], cs)
  else ([.variable name isQuoted], rest)

/-- Reads up to a closing quotation mark, in at most `bound` steps. -/
def insideQuotes? : Nat → List Char → Option (Word × List Char)
  | 0, _ => none
  | _, [] => none
  | _, '"' :: rest => some ([], rest)
  | bound + 1, '\\' :: c :: rest =>
    (insideQuotes? bound rest).map fun (w, tail) =>
      (if c == '"' || c == '\\' || c == '$' then .quoted c :: w else .quoted '\\' :: .quoted c :: w,
        tail)
  | bound + 1, '$' :: rest =>
    let (fragments, rest) := variableFragment true rest
    (insideQuotes? bound rest).map fun (w, tail) => (fragments ++ w, tail)
  | bound + 1, c :: rest => (insideQuotes? bound rest).map fun (w, tail) => (.quoted c :: w, tail)

def endsWord (c : Char) : Bool :=
  c == ' ' || c == '\t' || c == '\n' || c == ';' || c == '&' || c == '|' || c == '(' || c == ')' ||
    c == '<' || c == '>'

def word? : Nat → List Char → Option (Word × List Char)
  | 0, _ => none
  | _, [] => some ([], [])
  | bound + 1, '\'' :: rest =>
    let inside := rest.takeWhile (· != '\'')
    match rest.drop inside.length with
    | [] => none
    | _ :: rest => (word? bound rest).map fun (w, tail) => (.quotes :: inside.map .quoted ++ w, tail)
  | bound + 1, '"' :: rest => do
    let (inside, rest) ← insideQuotes? bound rest
    let (w, tail) ← word? bound rest
    return (.quotes :: inside ++ w, tail)
  | bound + 1, '\\' :: c :: rest => (word? bound rest).map fun (w, tail) => (.quoted c :: w, tail)
  | bound + 1, '$' :: rest =>
    let (fragments, rest) := variableFragment false rest
    (word? bound rest).map fun (w, tail) => (fragments ++ w, tail)
  | bound + 1, c :: rest =>
    if endsWord c then some ([], c :: rest)
    else (word? bound rest).map fun (w, tail) => (.char c :: w, tail)

/-- Whether a word in front of an arrow tells which stream is redirected. -/
def isStreamNumber (w : Word) (rest : List Char) : Bool :=
  !w.isEmpty && (rest.head? == some '<' || rest.head? == some '>') &&
    w.all fun fragment => match fragment with
      | .char c => c.isDigit
      | _ => false

def tokens? : Nat → List Char → Option (List Token)
  | 0, _ => none
  | _, [] => some []
  | bound + 1, ' ' :: rest => tokens? bound rest
  | bound + 1, '\t' :: rest => tokens? bound rest
  | bound + 1, '#' :: rest => tokens? bound (rest.dropWhile (· != '\n'))
  | bound + 1, ';' :: ';' :: rest => (tokens? bound rest).map (.separator ";;" :: ·)
  | bound + 1, '&' :: '&' :: rest => (tokens? bound rest).map (.separator "&&" :: ·)
  | bound + 1, '|' :: '|' :: rest => (tokens? bound rest).map (.separator "||" :: ·)
  | bound + 1, '\n' :: rest => (tokens? bound rest).map (.separator ";" :: ·)
  | bound + 1, c :: rest =>
    if endsWord c then (tokens? bound rest).map (.separator (String.singleton c) :: ·)
    else do
      let (w, rest) ← word? (rest.length + 2) (c :: rest)
      let others ← tokens? bound rest
      return if isStreamNumber w rest then others else .word w :: others

/-- The character of a fragment that is neither quoted nor a variable. -/
def Fragment.bare? : Fragment → Option Char
  | char c => some c
  | _ => none

/-- The text of a word that is written without quotes and variables. -/
def bareText? (w : Word) : Option String :=
  (w.mapM Fragment.bare?).map String.ofList

def isWord (text : String) : Token → Bool
  | .word w => bareText? w == some text
  | .separator _ => false

def endsList (token : Token) : Bool :=
  token == .separator ")" || token == .separator ";;" ||
    ["esac", "then", "else", "elif", "fi"].any fun text => isWord text token

def dropSeparators (tokens : List Token) : List Token :=
  tokens.dropWhile (· == .separator ";")

/-- The words up to the next separator, without the redirections among them. -/
def takeWords : List Token → List Word × List Token
  | .word w :: rest =>
    let (words, tail) := takeWords rest
    (w :: words, tail)
  | .separator ">" :: .word _ :: rest => takeWords rest
  | .separator "<" :: .word _ :: rest => takeWords rest
  | .separator ">" :: .separator ">" :: .word _ :: rest => takeWords rest
  | .separator ">" :: .separator "&" :: .word _ :: rest => takeWords rest
  | rest => ([], rest)

/-- Reads the patterns of a branch: words with bars between them, up to a closing parenthesis. -/
def patterns? : List Token → Option (List Word × List Token)
  | .separator "(" :: rest => patterns? rest
  | .word w :: .separator ")" :: rest => some ([w], rest)
  | .word w :: .separator "|" :: rest => (patterns? rest).map fun (ws, tail) => (w :: ws, tail)
  | _ => none

abbrev CommandReader := List Token → Option (Command × List Token)

/-- Reads commands one after the other, at most `bound` of them. -/
def list? (command? : CommandReader) : Nat → List Token → Option (List Command × List Token)
  | 0, _ => none
  | bound + 1, tokens =>
    match dropSeparators tokens with
    | [] => some ([], [])
    | token :: rest =>
      if endsList token then some ([], token :: rest)
      else do
        let (first, rest) ← command? (token :: rest)
        let (others, rest) ← list? command? bound rest
        return (first :: others, rest)

def branches? (command? : CommandReader) :
    Nat → List Token → Option (List (List Word × Command) × List Token)
  | 0, _ => none
  | bound + 1, tokens =>
    match dropSeparators tokens with
    | [] => none
    | token :: rest =>
      if isWord "esac" token then some ([], rest)
      else do
        let (patterns, rest) ← patterns? (token :: rest)
        let (body, rest) ← list? command? bound rest
        let (others, rest) ← branches? command? bound <| match rest with
          | .separator ";;" :: rest => rest
          | rest => rest
        return ((patterns, .sequence body) :: others, rest)

/-- Reads what follows the test of a condition, with at most `bound` further tests. -/
def conditional? (command? : CommandReader) : Nat → List Token → Option (Command × List Token)
  | 0, _ => none
  | bound + 1, tokens => do
    let (test, rest) ← list? command? (tokens.length + 1) tokens
    let thenToken ← rest.head?
    if !isWord "then" thenToken then none
    let (yes, rest) ← list? command? (tokens.length + 1) (rest.drop 1)
    let next ← rest.head?
    if isWord "fi" next then
      return (.conditional (.sequence test) (.sequence yes) (.sequence []), rest.drop 1)
    else if isWord "elif" next then
      let (no, rest) ← conditional? command? bound (rest.drop 1)
      return (.conditional (.sequence test) (.sequence yes) no, rest)
    else if isWord "else" next then
      let (no, rest) ← list? command? (tokens.length + 1) (rest.drop 1)
      let last ← rest.head?
      if !isWord "fi" last then none
      return (.conditional (.sequence test) (.sequence yes) (.sequence no), rest.drop 1)
    else none

/-- Reads a single command, given how the commands nested in it are read. -/
def single? (command? : CommandReader) (tokens : List Token) : Option (Command × List Token) :=
  match tokens with
  | .separator "(" :: rest => do
    let (body, rest) ← list? command? (tokens.length + 1) rest
    match rest with
    | .separator ")" :: rest => return (.sequence body, rest)
    | _ => none
  | .word w :: rest =>
    if bareText? w = some "!" then (command? rest).map fun (c, rest) => (.negation c, rest)
    else if bareText? w = some "if" then conditional? command? (tokens.length + 1) rest
    else if bareText? w = some "case" then
      match rest with
      | .word subject :: inToken :: rest =>
        if isWord "in" inToken then
          (branches? command? (tokens.length + 1) rest).map fun (branches, rest) =>
            (.choice subject branches, rest)
        else none
      | _ => none
    else
      let (words, rest) := takeWords tokens
      some (.simple words, rest)
  | _ => none

/-- Goes on with the commands that depend on the outcome of a first one, at most `bound` of them. -/
def chain? (command? : CommandReader) : Nat → Command → List Token → Option (Command × List Token)
  | 0, first, rest => some (first, rest)
  | bound + 1, first, .separator "&&" :: rest => do
    let (second, rest) ← single? command? (dropSeparators rest)
    chain? command? bound (.both first second) rest
  | bound + 1, first, .separator "||" :: rest => do
    let (second, rest) ← single? command? (dropSeparators rest)
    chain? command? bound (.either first second) rest
  | _, first, rest => some (first, rest)

/-- Reads a command in which at most `depth` commands are nested. -/
def commandWithin? : Nat → CommandReader
  | 0, _ => none
  | depth + 1, tokens => do
    let (first, rest) ← single? (commandWithin? depth) tokens
    chain? (commandWithin? depth) rest.length first rest

/-- Reads a script; none when it is not well formed. -/
def script? (text : String) : Option Command := do
  let cs := text.toList
  let tokens ← tokens? (cs.length + 1) cs
  let (commands, rest) ← list? (commandWithin? (tokens.length + 1)) (tokens.length + 1) tokens
  if rest.isEmpty then some (.sequence commands) else none

end ShaderMigration.Processor
