import ShaderMigration.Decimal.Scaled
import ShaderMigration.Hex

namespace ShaderMigration.Json

inductive Number where
  | int (n : Int)
  | float (x : Float)
deriving DecidableEq

/-- A token that is well formed but denotes nothing (a number beyond the finite doubles, a string with
half of a surrogate pair) has the value `none`, so that a reader may pass over it. -/
inductive Token where
  | openBrace | closeBrace | openBracket | closeBracket | comma | colon
  | null
  | bool (b : Bool)
  | number (value : Option Number)
  | string (content : Option String)

def isBlank (c : Char) : Bool := c == ' ' || c == '\n' || c == '\t' || c == '\r'

def splitSign : List Char → Bool × List Char
  | '-' :: rest => (true, rest)
  | cs => (false, cs)

def exponent? : List Char → Option Int
  | [] => some 0
  | c :: rest =>
    if c == 'e' || c == 'E' then
      let (negative, digits) :=
        match rest with
        | '+' :: ds => (false, ds)
        | '-' :: ds => (true, ds)
        | ds => (false, ds)
      if digits.isEmpty || !digits.all Char.isDigit then none
      else
        let n : Int := Decimal.natOfDigits digits
        some (if negative then -n else n)
    else none

def tail? : List Char → Option (List Char × Bool × Int)
  | '.' :: rest =>
    let digits := rest.takeWhile Char.isDigit
    if digits.isEmpty then none
    else (exponent? (rest.drop digits.length)).map fun e => (digits, false, e)
  | rest => (exponent? rest).map fun e => ([], rest.isEmpty, e)

/-- What a written number denotes: an integer without point and exponent stays one as long as it
fits 64 bits, and `-0` is the float. -/
def Number.ofNotation (n : Decimal.Notation) (plain : Bool) : Option Number :=
  let magnitude := Decimal.natOfDigits n.whole
  if plain ∧ !n.negative ∧ magnitude < Nat.pow 2 64 then some (.int magnitude)
  else if plain ∧ n.negative ∧ 0 < magnitude ∧ magnitude ≤ Nat.pow 2 63 then some (.int (-magnitude))
  else if plain ∧ n.negative ∧ magnitude < Nat.pow 2 64 then some (.float (-(Float.ofNat magnitude)))
  else n.value?.map .float

/-- Reads a number that takes up a whole word: no leading zeros, digits on both sides of a point. -/
def number? (cs : List Char) : Option (Option Number) :=
  let (negative, body) := splitSign cs
  let whole := body.takeWhile Char.isDigit
  if whole.isEmpty || (whole.head? == some '0' && whole.length != 1) then none
  else (tail? (body.drop whole.length)).map fun (fraction, plain, e) =>
    Number.ofNotation ⟨negative, whole, fraction, e⟩ plain

def escaped? : Char → Option Char
  | '"' => some '"'
  | '\\' => some '\\'
  | '/' => some '/'
  | 'b' => some '\x08'
  | 'f' => some '\x0c'
  | 'n' => some '\n'
  | 'r' => some '\r'
  | 't' => some '\t'
  | _ => none

/-- A piece of a string: a character, or a code unit written in hexadecimal. -/
inductive Unit16 where
  | char (c : Char)
  | code (n : Nat)

/-- Reads a string up to its closing quote, and what follows it. -/
def units? : List Char → Option (List Unit16 × List Char)
  | [] => none
  | '"' :: rest => some ([], rest)
  | '\\' :: 'u' :: a :: b :: c :: d :: rest =>
    match Hex.read? [a, b, c, d] with
    | some n => (units? rest).map fun (us, tail) => (.code n :: us, tail)
    | none => none
  | '\\' :: c :: rest =>
    match escaped? c with
    | some e => (units? rest).map fun (us, tail) => (.char e :: us, tail)
    | none => none
  | c :: rest =>
    if c.toNat < 0x20 || c == '\\' then none
    else (units? rest).map fun (us, tail) => (.char c :: us, tail)

/-- Joins code units into characters; half of a surrogate pair has no character. -/
def joinUnits? : List Unit16 → Option (List Char)
  | [] => some []
  | .char c :: rest => (joinUnits? rest).map (c :: ·)
  | .code high :: .code low :: rest =>
    if 0xD800 ≤ high ∧ high < 0xDC00 then
      if 0xDC00 ≤ low ∧ low < 0xE000 then
        (joinUnits? rest).map (Char.ofNat (0x10000 + (high - 0xD800) * 0x400 + (low - 0xDC00)) :: ·)
      else none
    else if 0xDC00 ≤ high ∧ high < 0xE000 then none
    else (joinUnits? (.code low :: rest)).map (Char.ofNat high :: ·)
  | .code n :: rest =>
    if 0xD800 ≤ n ∧ n < 0xE000 then none else (joinUnits? rest).map (Char.ofNat n :: ·)

def punctuation? : Char → Option Token
  | '\x7b' => some .openBrace
  | '\x7d' => some .closeBrace
  | '[' => some .openBracket
  | ']' => some .closeBracket
  | ',' => some .comma
  | ':' => some .colon
  | _ => none

def isWordChar (c : Char) : Bool := c.isAlphanum || c == '.' || c == '+' || c == '-'

def word? (cs : List Char) : Option Token :=
  if cs = "null".toList then some .null
  else if cs = "true".toList then some (.bool true)
  else if cs = "false".toList then some (.bool false)
  else (number? cs).map .number

def token? : List Char → Option (Token × List Char)
  | [] => none
  | '"' :: rest => (units? rest).map fun (us, tail) =>
      (.string ((joinUnits? us).map String.ofList), tail)
  | c :: rest =>
    match punctuation? c with
    | some token => some (token, rest)
    | none =>
      let word := (c :: rest).takeWhile isWordChar
      (word? word).map fun token => (token, (c :: rest).drop word.length)

/-- Reads tokens until the text ends, with a bound on their number. -/
def tokensWithin? : Nat → List Char → Option (List Token)
  | 0, cs => if (cs.dropWhile isBlank).isEmpty then some [] else none
  | bound + 1, cs =>
    match cs.dropWhile isBlank with
    | [] => some []
    | c :: rest =>
      match token? (c :: rest) with
      | some (token, tail) => (tokensWithin? bound tail).map (token :: ·)
      | none => none

/-- The tokens of a text; a text has no more tokens than characters. -/
def tokens? (cs : List Char) : Option (List Token) := tokensWithin? cs.length cs

end ShaderMigration.Json
