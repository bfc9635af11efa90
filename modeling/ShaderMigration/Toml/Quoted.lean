import ShaderMigration.Hex

namespace ShaderMigration.Toml

/-- Whether a character may stand for itself on a line: any but the control characters, of which
only the tab may. -/
def isLineChar (c : Char) : Bool := c == '\t' || (0x20 ≤ c.toNat && c.toNat != 0x7f)

/-- The character with a number, unless it is half of a surrogate pair or too large. -/
def charOfCode? (n : Nat) : Option Char :=
  if n < 0xD800 ∨ (0xE000 ≤ n ∧ n < 0x110000) then some (Char.ofNat n) else none

def charOfHex? (digits : List Char) : Option Char := (Hex.read? digits).bind charOfCode?

def escaped? : Char → Option Char
  | 'b' => some '\x08'
  | 't' => some '\t'
  | 'n' => some '\n'
  | 'f' => some '\x0c'
  | 'r' => some '\r'
  | 'e' => some '\x1b'
  | '"' => some '"'
  | '\\' => some '\\'
  | _ => none

abbrev Reading := Option (List Char × List Char)

def Reading.cons (c : Option Char) (reading : Reading) : Reading :=
  match c, reading with
  | some c, some (text, rest) => some (c :: text, rest)
  | _, _ => none

def basic? : List Char → Reading
  | [] => none
  | '"' :: rest => some ([], rest)
  | '\\' :: 'x' :: a :: b :: rest => (basic? rest).cons (charOfHex? [a, b])
  | '\\' :: 'u' :: a :: b :: c :: d :: rest => (basic? rest).cons (charOfHex? [a, b, c, d])
  | '\\' :: 'U' :: a :: b :: c :: d :: e :: f :: g :: h :: rest =>
    (basic? rest).cons (charOfHex? [a, b, c, d, e, f, g, h])
  | '\\' :: c :: rest => (basic? rest).cons (escaped? c)
  | c :: rest => (basic? rest).cons (if isLineChar c && c != '\\' then some c else none)

def literal? : List Char → Reading
  | [] => none
  | '\'' :: rest => some ([], rest)
  | c :: rest => (literal? rest).cons (if isLineChar c then some c else none)

/-- How blanks are read in a text over several lines. -/
inductive BlankMode where
  /-- They belong to the text. -/
  | kept
  /-- A backslash was read, and the line must end before anything else. -/
  | endOfLine
  /-- A line was continued, and everything blank is dropped. -/
  | dropped
deriving DecidableEq

def multilineBasic? : BlankMode → List Char → Reading
  | _, [] => none
  | .endOfLine, c :: rest =>
    if c == ' ' || c == '\t' || c == '\r' then multilineBasic? .endOfLine rest
    else if c == '\n' then multilineBasic? .dropped rest
    else none
  | .kept, '"' :: '"' :: '"' :: '"' :: '"' :: rest => some (['"', '"'], rest)
  | .dropped, '"' :: '"' :: '"' :: '"' :: '"' :: rest => some (['"', '"'], rest)
  | .kept, '"' :: '"' :: '"' :: '"' :: rest => some (['"'], rest)
  | .dropped, '"' :: '"' :: '"' :: '"' :: rest => some (['"'], rest)
  | .kept, '"' :: '"' :: '"' :: rest => some ([], rest)
  | .dropped, '"' :: '"' :: '"' :: rest => some ([], rest)
  | mode, '\\' :: 'x' :: a :: b :: rest =>
    if mode = .endOfLine then none else (multilineBasic? .kept rest).cons (charOfHex? [a, b])
  | mode, '\\' :: 'u' :: a :: b :: c :: d :: rest =>
    if mode = .endOfLine then none else (multilineBasic? .kept rest).cons (charOfHex? [a, b, c, d])
  | mode, '\\' :: 'U' :: a :: b :: c :: d :: e :: f :: g :: h :: rest =>
    if mode = .endOfLine then none
    else (multilineBasic? .kept rest).cons (charOfHex? [a, b, c, d, e, f, g, h])
  | mode, '\\' :: c :: rest =>
    if mode = .endOfLine then none
    else if c == ' ' || c == '\t' || c == '\r' then multilineBasic? .endOfLine rest
    else if c == '\n' then multilineBasic? .dropped rest
    else (multilineBasic? .kept rest).cons (escaped? c)
  | mode, '\r' :: '\n' :: rest =>
    if mode = .dropped then multilineBasic? .dropped rest
    else (multilineBasic? .kept rest).cons (some '\n')
  | mode, c :: rest =>
    if mode = .dropped && (c == ' ' || c == '\t' || c == '\n') then multilineBasic? .dropped rest
    else
      (multilineBasic? .kept rest).cons
        (if (isLineChar c && c != '\\') || c == '\n' then some c else none)

/-- Reads a text without escapes over several lines. -/
def multilineLiteral? : List Char → Reading
  | [] => none
  | '\'' :: '\'' :: '\'' :: '\'' :: '\'' :: rest => some (['\'', '\''], rest)
  | '\'' :: '\'' :: '\'' :: '\'' :: rest => some (['\''], rest)
  | '\'' :: '\'' :: '\'' :: rest => some ([], rest)
  | '\r' :: '\n' :: rest => (multilineLiteral? rest).cons (some '\n')
  | c :: rest => (multilineLiteral? rest).cons (if isLineChar c || c == '\n' then some c else none)

def dropFirstLineEnd : List Char → List Char
  | '\n' :: rest => rest
  | '\r' :: '\n' :: rest => rest
  | cs => cs

/-- Reads a quoted text of any form, opening quotes included; none when there is no such text. -/
def quoted? : List Char → Reading
  | '"' :: '"' :: '"' :: rest => multilineBasic? .kept (dropFirstLineEnd rest)
  | '"' :: rest => basic? rest
  | '\'' :: '\'' :: '\'' :: rest => multilineLiteral? (dropFirstLineEnd rest)
  | '\'' :: rest => literal? rest
  | _ => none

end ShaderMigration.Toml
