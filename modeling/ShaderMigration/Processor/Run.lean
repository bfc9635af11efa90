import ShaderMigration.Files.Glob
import ShaderMigration.Processor.Script
import ShaderMigration.Texture

namespace ShaderMigration.Processor

/-- What a script can look at: its arguments, the variables and the files. -/
structure Setting where
  arguments : List String
  env : Texture.Environment
  files : Files.Tree

/-- The status with which a script goes on, or the way in which it ends. -/
abbrev Status := Except Texture.ExitStatus Nat

/-- The status of a script that cannot be found or read. -/
def malformed : Nat := 2

def unknownCommand : Nat := 127

/-- The number under which a script knows itself. -/
def ownNumber : String := "2"

namespace Setting

def value (setting : Setting) (name : String) : String :=
  if name == "#" then toString (setting.arguments.length - 1)
  else if name == "$" then ownNumber
  else if name == "@" || name == "*" then String.intercalate " " (setting.arguments.drop 1)
  else
    match name.toNat? with
    | some n => (setting.arguments[n]?).getD ""
    | none => (setting.env.find? name).getD ""

def fragmentText (setting : Setting) : Fragment → String
  | .char c => String.singleton c
  | .quoted c => String.singleton c
  | .variable name _ => setting.value name
  | .quotes => ""

def text (setting : Setting) (w : Word) : String :=
  String.join (w.map setting.fragmentText)

/-- Whether a fragment keeps its word together. -/
def isProtected : Fragment → Bool
  | .char _ => false
  | .variable _ isQuoted => isQuoted
  | _ => true

def splitBlanks (cs : List Char) : List String :=
  (cs.splitBy fun a b => (a == ' ') == (b == ' ')).filterMap fun run =>
    if run.head? == some ' ' then none else some (String.ofList run)

/-- The fields of a word: a word without quotes is split at the blanks of its variables. -/
def fields (setting : Setting) (w : Word) : List String :=
  let text := setting.text w
  if w.any isProtected then [text] else splitBlanks text.toList

/-- The parts of a pattern that a fragment stands for; brackets are read with the rest of the
word. -/
def partsOf? (setting : Setting) : Fragment → Option (List Files.Glob.Part)
  | .char '*' => some [.anyText]
  | .char '?' => some [.anyChar]
  | .char '[' => none
  | .char c => some [.char c]
  | .quoted c => some [.char c]
  | .variable name _ => some ((setting.value name).toList.map .char)
  | .quotes => some []

/-- The pattern of a word: what is quoted stands for itself. -/
def pattern? (setting : Setting) (w : Word) : Option (List Files.Glob.Part) :=
  ((w.mapM setting.partsOf?).map List.flatten).or
    (Files.Glob.parse? false (setting.text w).toList)

end Setting

def ofTruth (b : Bool) : Nat := if b then 0 else 1

def compareInts (holds : Int → Int → Bool) (a b : String) : Nat :=
  match a.toInt?, b.toInt? with
  | some m, some n => ofTruth (holds m n)
  | _, _ => malformed

def unaryTest (setting : Setting) (operator operand : String) : Nat :=
  match operator with
  | "!" => ofTruth operand.isEmpty
  | "-n" => ofTruth (!operand.isEmpty)
  | "-z" => ofTruth operand.isEmpty
  | "-e" => ofTruth (setting.files.isPresent operand)
  | "-r" => ofTruth (setting.files.isPresent operand)
  | "-f" => ofTruth (setting.files.isFile operand)
  | "-d" => ofTruth (setting.files.isDirectory operand)
  | "-s" => ofTruth ((setting.files.read operand).toOption.any fun content => !content.isEmpty)
  | _ => malformed

def binaryTest (operator a b : String) : Nat :=
  match operator with
  | "=" => ofTruth (a == b)
  | "==" => ofTruth (a == b)
  | "!=" => ofTruth (a != b)
  | "-eq" => compareInts (· == ·) a b
  | "-ne" => compareInts (· != ·) a b
  | "-lt" => compareInts (fun m n => decide (m < n)) a b
  | "-le" => compareInts (fun m n => decide (m ≤ n)) a b
  | "-gt" => compareInts (fun m n => decide (n < m)) a b
  | "-ge" => compareInts (fun m n => decide (n ≤ m)) a b
  | _ => malformed

/-- The opposite of a condition; a malformed one stays as it is. -/
def opposite (status : Nat) : Nat := if status = 0 then 1 else if status = 1 then 0 else status

def test (setting : Setting) : List String → Nat
  | [] => 1
  | [operand] => ofTruth (!operand.isEmpty)
  | [operator, operand] => unaryTest setting operator operand
  | ["!", operator, operand] => opposite (unaryTest setting operator operand)
  | [a, operator, b] => binaryTest operator a b
  | ["!", a, operator, b] => opposite (binaryTest operator a b)
  | _ => malformed

def signal? (text : String) : Option Nat :=
  (Texture.signals.find? fun entry =>
    toString entry.1 == text || entry.2 == text || entry.2 == "SIG" ++ text).map Prod.fst

def kill : List String → Status
  | [target] => if target == ownNumber then .error (.signal 15) else .ok 1
  | [switch, target] =>
    match switch.toList with
    | '-' :: name =>
      match signal? (String.ofList name) with
      | some n => if target == ownNumber then .error (.signal n) else .ok 1
      | none => .ok malformed
    | _ => .ok malformed
  | [switch, name, target] =>
    match switch, signal? name with
    | "-s", some n => if target == ownNumber then .error (.signal n) else .ok 1
    | _, _ => .ok malformed
  | _ => .ok malformed

def runSimple (setting : Setting) (last : Nat) : List String → Status
  | [] => .ok last
  | "true" :: _ => .ok 0
  | ":" :: _ => .ok 0
  | "echo" :: _ => .ok 0
  | "printf" :: _ => .ok 0
  | "false" :: _ => .ok 1
  | "exit" :: operands =>
    match operands.head? with
    | none => .error (.code last)
    | some operand =>
      match operand.toNat? with
      | some n => .error (.code (n % 256))
      | none => .error (.code malformed)
  | "kill" :: operands => kill operands
  | "test" :: operands => .ok (test setting operands)
  | "[" :: operands =>
    if operands.getLast? = some "]" then .ok (test setting operands.dropLast) else .ok malformed
  | _ => .ok unknownCommand

mutual

/-- Runs a command after one that ended with a status. -/
def runCommand (setting : Setting) (last : Nat) : Command → Status
  | .simple words => runSimple setting last (words.flatMap setting.fields)
  | .negation command => do return if (← runCommand setting last command) = 0 then 1 else 0
  | .both first second => do
    let status ← runCommand setting last first
    if status = 0 then runCommand setting status second else return status
  | .either first second => do
    let status ← runCommand setting last first
    if status = 0 then return status else runCommand setting status second
  | .sequence commands => runAll setting last commands
  | .conditional condition yes no => do
    let status ← runCommand setting last condition
    if status = 0 then runCommand setting 0 yes else runCommand setting 0 no
  | .choice subject branches => runBranches setting (setting.text subject) branches

def runAll (setting : Setting) (last : Nat) : List Command → Status
  | [] => .ok last
  | command :: rest => do runAll setting (← runCommand setting last command) rest

def runBranches (setting : Setting) (subject : String) : List (List Word × Command) → Status
  | [] => .ok 0
  | branch :: rest =>
    match runBranch setting subject branch with
    | some status => status
    | none => runBranches setting subject rest

def runBranch (setting : Setting) (subject : String) : List Word × Command → Option Status
  | (patterns, body) =>
    if patterns.any fun w => (setting.pattern? w).any fun parts => Files.Glob.fits parts subject.toList
    then some (runCommand setting 0 body)
    else none

end

def runScript (setting : Setting) (text : String) : Texture.ExitStatus :=
  match script? text with
  | none => .code malformed
  | some command =>
    match runCommand setting 0 command with
    | .ok status => .code status
    | .error status => status

/-- Runs a processor by name.  There are no others than these. -/
def run (env : Texture.Environment) (files : Files.Tree) (program : String) (arguments : List String) :
    Except Files.FileError Texture.ExitStatus :=
  let name := (Files.fileName? program).getD program
  let isKnownPlace := ["", "/bin/", "/usr/bin/"].any fun place => place ++ name == program
  if !isKnownPlace then .error .notFound
  else
    match name, arguments with
    | "true", _ => .ok (.code 0)
    | "false", _ => .ok (.code 1)
    | "sh", "-c" :: text :: rest =>
      let named := if rest.isEmpty then [program] else rest
      .ok (runScript ⟨named, env, files⟩ text)
    | "sh", script :: rest =>
      match files.read script with
      | .ok text => .ok (runScript ⟨script :: rest, env, files⟩ text)
      | .error _ => .ok (.code malformed)
    | _, _ => .error .notFound

/-- The surroundings of texture jobs in which these processors are the only ones. -/
def workshop (env : Texture.Environment) (files : Files.Tree) : Texture.Workshop :=
  { env, files, run := run env files }

end ShaderMigration.Processor
