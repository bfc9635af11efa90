import ShaderMigration.Data
import ShaderMigration.Decimal.Shortest
import ShaderMigration.Hex

namespace ShaderMigration.Json

/-- Puts a point after the first `n` digits, filling up with zeros, and keeps a digit behind it. -/
def withPoint (digits : List Char) (n : Nat) : List Char :=
  let whole := digits.take n ++ List.replicate (n - digits.length) '0'
  let fraction := digits.drop n
  whole ++ '.' :: (if fraction.isEmpty then ['0'] else fraction)

def exponentText (e : Int) : List Char :=
  (if e < 0 then '-' else '+') :: Decimal.natDigits e.natAbs

def scientific (digits : List Char) (e : Int) : List Char :=
  digits.take 1 ++ (if digits.length = 1 then [] else '.' :: digits.drop 1) ++ 'e' :: exponentText e

/-- The text of a positive number: positional from `1e-5` up to below `1e16`. -/
def magnitudeText (d : Decimal.Digits) : List Char :=
  if 0 ≤ d.exponent ∧ d.exponent < 16 then withPoint d.digits (d.exponent.toNat + 1)
  else if -5 ≤ d.exponent ∧ d.exponent < 0 then
    "0.".toList ++ List.replicate (-d.exponent - 1).toNat '0' ++ d.digits
  else scientific d.digits d.exponent

/-- The fewest digits that read back, always with a point or an exponent. -/
def floatText (x : Float) : String :=
  match Dyadic.ofFloat? x with
  | none => "null"
  | some d =>
    let body := if d.mantissa = 0 then "0.0".toList
      else magnitudeText (Decimal.shortest d.mantissa d.exponent)
    String.ofList (if d.negative then '-' :: body else body)

/-- The text of one character of a string: quotes, backslashes and control characters are escaped. -/
def escape (c : Char) : List Char :=
  if c == '"' then "\\\"".toList
  else if c == '\\' then "\\\\".toList
  else if c == '\x08' then "\\b".toList
  else if c == '\t' then "\\t".toList
  else if c == '\n' then "\\n".toList
  else if c == '\x0c' then "\\f".toList
  else if c == '\r' then "\\r".toList
  else if c.toNat < 0x20 then "\\u".toList ++ Hex.write 4 c.toNat
  else [c]

def quoted (s : String) : String :=
  String.ofList ('"' :: s.toList.flatMap escape ++ ['"'])

def intText (n : Int) : String :=
  String.ofList (if n < 0 then '-' :: Decimal.natDigits n.natAbs else Decimal.natDigits n.natAbs)

mutual

def compact : Data → String
  | .null => "null"
  | .bool b => if b then "true" else "false"
  | .int n => intText n
  | .float x => floatText x
  | .text s => quoted s
  | .list items => "[" ++ String.intercalate "," (compactItems items) ++ "]"
  | .record members => "\x7b" ++ String.intercalate "," (compactMembers members) ++ "\x7d"

def compactItems : List Data → List String
  | [] => []
  | item :: rest => compact item :: compactItems rest

def compactMembers : List (String × Data) → List String
  | [] => []
  | member :: rest => compactMember member :: compactMembers rest

def compactMember : String × Data → String
  | (key, value) => quoted key ++ ":" ++ compact value

end

def indent (level : Nat) : String := String.ofList (List.replicate (2 * level) ' ')

/-- Brackets around one line per part, and nothing between them when there is no part. -/
def block (opening closing : String) (level : Nat) (parts : List String) : String :=
  if parts.isEmpty then opening ++ closing
  else
    opening ++ "\n" ++ String.intercalate ",\n" (parts.map fun part => indent (level + 1) ++ part) ++
      "\n" ++ indent level ++ closing

mutual

/-- The text of a document that starts on a line indented to a level. -/
def prettyAt (level : Nat) : Data → String
  | .list items => block "[" "]" level (prettyItems (level + 1) items)
  | .record members => block "\x7b" "\x7d" level (prettyMembers (level + 1) members)
  | .null => "null"
  | .bool b => if b then "true" else "false"
  | .int n => intText n
  | .float x => floatText x
  | .text s => quoted s

def prettyItems (level : Nat) : List Data → List String
  | [] => []
  | item :: rest => prettyAt level item :: prettyItems level rest

def prettyMembers (level : Nat) : List (String × Data) → List String
  | [] => []
  | member :: rest => prettyMember level member :: prettyMembers level rest

def prettyMember (level : Nat) : String × Data → String
  | (key, value) => quoted key ++ ": " ++ prettyAt level value

end

def pretty (d : Data) : String := prettyAt 0 d

end ShaderMigration.Json
