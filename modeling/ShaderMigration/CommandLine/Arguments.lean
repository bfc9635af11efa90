namespace ShaderMigration.CommandLine

inductive Switch where
  | config | pluginDir | verbose | help | version | sheet | output | noCleanup | strict
deriving DecidableEq, Repr

namespace Switch

def longName : Switch → String
  | config => "config"
  | pluginDir => "plugin-dir"
  | verbose => "verbose"
  | help => "help"
  | version => "version"
  | sheet => "sheet"
  | output => "output"
  | noCleanup => "no-cleanup"
  | strict => "strict"

def letter? : Switch → Option Char
  | config => some 'c'
  | pluginDir => some 'P'
  | verbose => some 'v'
  | help => some 'h'
  | version => some 'V'
  | sheet => some 's'
  | output => some 'o'
  | _ => none

def takesValue : Switch → Bool
  | config | pluginDir | sheet | output => true
  | _ => false

/-- Whether the value is a path, which must not be empty. -/
def takesPath : Switch → Bool
  | config | pluginDir | output => true
  | _ => false

def isRepeatable : Switch → Bool
  | pluginDir | verbose => true
  | _ => false

def shared : List Switch := [config, pluginDir, verbose, help]

end Switch

structure Grammar where
  switches : List Switch
  positionals : Nat

namespace Grammar

def program : Grammar := ⟨Switch.version :: Switch.shared, 0⟩

def convert : Grammar := ⟨[.sheet, .output, .noCleanup, .strict] ++ Switch.shared, 1⟩

def build : Grammar := ⟨[.output, .strict] ++ Switch.shared, 2⟩

def sheets : Grammar := ⟨Switch.shared, 0⟩

def ofName? (grammar : Grammar) (name : String) : Option Switch :=
  grammar.switches.find? fun switch => switch.longName == name

def ofLetter? (grammar : Grammar) (c : Char) : Option Switch :=
  grammar.switches.find? fun switch => switch.letter? == some c

end Grammar

inductive Stop where
  | help | version | malformed
deriving DecidableEq, Repr

/-- What has been read: switches with their values, and positional values. -/
structure Given where
  switches : List (Switch × String) := []
  positionals : List String := []
deriving Repr

namespace Given

def has (given : Given) (switch : Switch) : Bool :=
  given.switches.any fun entry => entry.1 == switch

def values (given : Given) (switch : Switch) : List String :=
  (given.switches.filter fun entry => entry.1 == switch).map Prod.snd

def value? (given : Given) (switch : Switch) : Option String := (given.values switch).head?

def take (given : Given) (switch : Switch) (value : String) : Except Stop Given :=
  if switch = .help then .error .help
  else if switch = .version then .error .version
  else if switch.takesPath && value.isEmpty then .error .malformed
  else if given.has switch && !switch.isRepeatable then .error .malformed
  else .ok { given with switches := given.switches ++ [(switch, value)] }

def takePositional (given : Given) (grammar : Grammar) (value : String) : Except Stop Given :=
  if value.isEmpty || grammar.positionals ≤ given.positionals.length then .error .malformed
  else .ok { given with positionals := given.positionals ++ [value] }

def takePositionals (given : Given) (grammar : Grammar) (values : List String) : Except Stop Given :=
  values.foldlM (fun given value => given.takePositional grammar value) given

end Given

/-- The next step of reading an argument that starts with a hyphen. -/
inductive Pending where
  | complete (given : Given)
  | awaiting (given : Given) (switch : Switch)

def letters (grammar : Grammar) (given : Given) : List Char → Except Stop Pending
  | [] => .ok (.complete given)
  | c :: rest =>
    match grammar.ofLetter? c with
    | none => .error .malformed
    | some switch =>
      if switch.takesValue then
        match rest with
        | [] => .ok (.awaiting given switch)
        | '=' :: value => (given.take switch (String.ofList value)).map .complete
        | value => (given.take switch (String.ofList value)).map .complete
      else
        match given.take switch "" with
        | .ok given => letters grammar given rest
        | .error stop => .error stop

def name (grammar : Grammar) (given : Given) (cs : List Char) : Except Stop Pending :=
  let word := cs.takeWhile (· != '=')
  match grammar.ofName? (String.ofList word), cs.drop word.length with
  | none, _ => .error .malformed
  | some switch, _ :: value =>
    if switch.takesValue then (given.take switch (String.ofList value)).map .complete
    else .error .malformed
  | some switch, [] =>
    if switch.takesValue then .ok (.awaiting given switch)
    else (given.take switch "").map .complete

def isSwitch (argument : String) : Bool :=
  argument.toList.head? == some '-' && argument != "-"

def readSwitch (grammar : Grammar) (given : Given) (argument : String) : Except Stop Pending :=
  match argument.toList with
  | '-' :: '-' :: cs => name grammar given cs
  | _ :: cs => letters grammar given cs
  | [] => .error .malformed

/-- Reads arguments up to the first one that `isCommand` takes for a command, which is yielded with
the arguments behind it. -/
def read (grammar : Grammar) (isCommand : Bool) : List String → Given →
    Except Stop (Given × Option (String × List String))
  | [], given => .ok (given, none)
  | argument :: rest, given =>
    if argument = "--" then (given.takePositionals grammar rest).map fun given => (given, none)
    else if isSwitch argument then
      match readSwitch grammar given argument with
      | .error stop => .error stop
      | .ok (.complete given) => read grammar isCommand rest given
      | .ok (.awaiting given switch) =>
        match rest with
        | [] => .error .malformed
        | value :: rest =>
          if isSwitch value then .error .malformed
          else
            match given.take switch value with
            | .ok given => read grammar isCommand rest given
            | .error stop => .error stop
    else if isCommand then .ok (given, some (argument, rest))
    else
      match given.takePositional grammar argument with
      | .ok given => read grammar isCommand rest given
      | .error stop => .error stop

inductive Command where
  | convert (scene sheet : String) (output : Option String) (cleansUp isStrict : Bool)
  | build (scene tree : String) (output : Option String) (isStrict : Bool)
  | sheets
deriving DecidableEq, Repr

structure Request where
  config : Option String
  pluginDirs : List String
  command : Command
deriving DecidableEq, Repr

def convertOfGiven (given : Given) : Except Stop Command :=
  match given.positionals, given.value? .sheet with
  | [scene], some sheet =>
    .ok (.convert scene sheet (given.value? .output) (!given.has .noCleanup) (given.has .strict))
  | _, _ => .error .malformed

def buildOfGiven (given : Given) : Except Stop Command :=
  match given.positionals with
  | [scene, tree] => .ok (.build scene tree (given.value? .output) (given.has .strict))
  | _ => .error .malformed

def commands : List (String × Grammar × (Given → Except Stop Command)) :=
  [("convert", .convert, convertOfGiven), ("build", .build, buildOfGiven),
    ("sheets", .sheets, fun _ => .ok .sheets)]

def readHelp (names : List String) : Stop :=
  match names with
  | [] => .help
  | [name] => if name == "help" || commands.any fun entry => entry.1 == name then .help else .malformed
  | _ => .malformed

/-- Reads a command with its arguments; what is set behind the command wins over what is set before
it. -/
def readCommand (before : Given) (name : String) (arguments : List String) : Except Stop Request :=
  if name = "help" then .error (readHelp arguments)
  else
    match commands.find? fun entry => entry.1 == name with
    | none => .error .malformed
    | some (_, grammar, ofGiven) => do
      let (given, _) ← read grammar false arguments {}
      let behind := given.values .pluginDir
      return {
        config := (given.value? .config).or (before.value? .config)
        pluginDirs := if behind.isEmpty then before.values .pluginDir else behind
        command := ← ofGiven given }

def readRequest (arguments : List String) : Except Stop Request := do
  match ← read .program true arguments {} with
  | (before, some (name, rest)) => readCommand before name rest
  | (_, none) => throw .malformed

end ShaderMigration.CommandLine
