import ShaderMigration.Data
import ShaderMigration.Decimal.Scaled
import ShaderMigration.Hex

namespace ShaderMigration.Toml

/-- Removes the underscores from digits; each must stand between two digits, and there must be a
digit. -/
def digits? (isDigit : Char → Bool) : List Char → Option (List Char)
  | [] => none
  | [c] => if isDigit c then some [c] else none
  | c :: '_' :: rest => if isDigit c then (digits? isDigit rest).map (c :: ·) else none
  | c :: rest => if isDigit c then (digits? isDigit rest).map (c :: ·) else none

def natOfDigits (base : Nat) (cs : List Char) : Nat :=
  cs.foldl (fun n c => base * n + (Hex.value? c).getD 0) 0

def isDigitOf (base : Nat) (c : Char) : Bool :=
  match Hex.value? c with
  | some n => n < base
  | none => false

def splitSign : List Char → Bool × List Char
  | '-' :: rest => (true, rest)
  | '+' :: rest => (false, rest)
  | cs => (false, cs)

/-- Decimal digits without a leading zero. -/
def wholeDigits? (cs : List Char) : Option (List Char) :=
  (digits? Char.isDigit cs).filter fun ds => ds.length == 1 || ds.head? != some '0'

/-- An integer within the range of 128 bits, signed or unsigned. -/
def boundedInt? (n : Int) : Option Data :=
  if -(Nat.pow 2 127 : Nat) ≤ n ∧ n < (Nat.pow 2 128 : Nat) then some (.int n) else none

def int? : List Char → Option Data
  | '0' :: 'x' :: rest => (digits? (isDigitOf 16) rest).bind fun ds => boundedInt? (natOfDigits 16 ds)
  | '0' :: 'o' :: rest => (digits? (isDigitOf 8) rest).bind fun ds => boundedInt? (natOfDigits 8 ds)
  | '0' :: 'b' :: rest => (digits? (isDigitOf 2) rest).bind fun ds => boundedInt? (natOfDigits 2 ds)
  | cs =>
    let (negative, body) := splitSign cs
    (wholeDigits? body).bind fun ds =>
      let n : Int := natOfDigits 10 ds
      boundedInt? (if negative then -n else n)

def isExponentMark (c : Char) : Bool := c == 'e' || c == 'E'

def exponent? : List Char → Option Int
  | [] => some 0
  | _ :: rest =>
    let (negative, body) := splitSign rest
    (digits? Char.isDigit body).map fun ds =>
      let n : Int := natOfDigits 10 ds
      if negative then -n else n

def fraction? : List Char → Option (List Char)
  | [] => some []
  | '.' :: rest => digits? Char.isDigit rest
  | _ => none

/-- Reads a finite float, which has a fraction or an exponent. -/
def decimal? (cs : List Char) : Option Data := do
  let (negative, body) := splitSign cs
  guard (body.any fun c => c == '.' || isExponentMark c)
  let mantissa := body.takeWhile fun c => !isExponentMark c
  let whole := mantissa.takeWhile (· != '.')
  let n : Decimal.Notation := {
    negative
    whole := ← wholeDigits? whole
    fraction := ← fraction? (mantissa.drop whole.length)
    exponent := ← exponent? (body.drop mantissa.length) }
  if Binary64.isFinite n.nearest then some (.float n.nearest) else none

def special? (cs : List Char) : Option Data :=
  let (negative, body) := splitSign cs
  if body = "inf".toList then some (.float (if negative then -1.0 / 0.0 else 1.0 / 0.0))
  else if body = "nan".toList then some (.float (0.0 / 0.0))
  else none

/-- Reads a number of a fixed width, at most `bound`. -/
def field? (cs : List Char) (bound : Nat) : Option Nat :=
  if cs.length = 2 ∧ cs.all Char.isDigit then (some (natOfDigits 10 cs)).filter (· ≤ bound) else none

def daysOfMonth (year month : Nat) : Nat :=
  if month = 2 then
    if year % 4 = 0 ∧ (year % 100 ≠ 0 ∨ year % 400 = 0) then 29 else 28
  else if month = 4 ∨ month = 6 ∨ month = 9 ∨ month = 11 then 30
  else 31

def isDate (cs : List Char) : Bool :=
  let year := cs.take 4
  match cs.drop 4 with
  | ['-', a, b, '-', c, d] =>
    year.length == 4 && year.all Char.isDigit &&
      match field? [a, b] 12, field? [c, d] 31 with
      | some month, some day =>
        1 ≤ month && 1 ≤ day && day ≤ daysOfMonth (natOfDigits 10 year) month
      | _, _ => false
  | _ => false

def dropZeros (cs : List Char) : List Char := (cs.reverse.dropWhile (· == '0')).reverse

/-- The text of a fraction of a second, to nine digits. -/
def fractionText? : List Char → Option (List Char)
  | [] => some []
  | '.' :: ds =>
    if ds.isEmpty || !ds.all Char.isDigit then none
    else
      let kept := dropZeros (ds.take 9)
      some (if kept.isEmpty then ".0".toList else '.' :: kept)
  | _ => none

def timeText? : List Char → Option (List Char)
  | a :: b :: ':' :: c :: d :: rest => do
    let _ ← field? [a, b] 23
    let _ ← field? [c, d] 59
    match rest with
    | [] => some [a, b, ':', c, d]
    | ':' :: e :: f :: fraction =>
      let _ ← field? [e, f] 60
      (fractionText? fraction).map fun text => [a, b, ':', c, d, ':', e, f] ++ text
    | _ => none
  | _ => none

def offsetText? : List Char → Option (List Char)
  | [] => some []
  | ['Z'] => some ['Z']
  | ['z'] => some ['Z']
  | [sign, a, b, ':', c, d] =>
    if sign == '+' || sign == '-' then do
      let _ ← field? [a, b] 23
      let _ ← field? [c, d] 59
      return [sign, a, b, ':', c, d]
    else none
  | _ => none

def startsOffset (c : Char) : Bool := c == 'Z' || c == 'z' || c == '+' || c == '-'

def stampText? (cs : List Char) : Option (List Char) :=
  if isDate (cs.take 10) then
    match cs.drop 10 with
    | [] => some cs
    | separator :: rest =>
      if separator == 'T' || separator == 't' || separator == ' ' then do
        let time := rest.takeWhile fun c => !startsOffset c
        let timeText ← timeText? time
        let offsetText ← offsetText? (rest.drop time.length)
        return cs.take 10 ++ 'T' :: timeText ++ offsetText
      else none
  else timeText? cs

/-- The member under which a date or a time is kept. -/
def stampKey : String := "$__toml_private_datetime"

def stamp? (cs : List Char) : Option Data :=
  (stampText? cs).map fun text => .record [(stampKey, .text (String.ofList text))]

def isWordChar (c : Char) : Bool :=
  c.isAlphanum || c == '+' || c == '-' || c == '.' || c == '_' || c == ':'

def word? (cs : List Char) : Option Data :=
  if cs = "true".toList then some (.bool true)
  else if cs = "false".toList then some (.bool false)
  else (special? cs).or ((int? cs).or ((decimal? cs).or (stamp? cs)))

/-- Splits off an unquoted value; a date may be followed by a blank and a time. -/
def splitWord (cs : List Char) : List Char × List Char :=
  let word := cs.takeWhile isWordChar
  match cs.drop word.length with
  | ' ' :: a :: rest =>
    if isDate word && a.isDigit then
      let time := (a :: rest).takeWhile isWordChar
      (word ++ ' ' :: time, (a :: rest).drop time.length)
    else (word, ' ' :: a :: rest)
  | rest => (word, rest)

end ShaderMigration.Toml
