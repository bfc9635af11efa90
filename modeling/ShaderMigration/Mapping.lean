import ShaderMigration.Rule

namespace ShaderMigration

inductive MappingCause where
  | host (cause : HostError)
  | converter (cause : ConvertError)
deriving DecidableEq

def MappingCause.message : MappingCause → String
  | host cause => "host rejected mapping: " ++ cause.message
  | converter cause => "converter failed: " ++ cause.message

structure MappingFailure where
  old : NodeId
  new : NodeId
  source : String
  target : String
  cause : MappingCause
deriving DecidableEq

def MappingFailure.message (failure : MappingFailure) : String :=
  s!"{failure.old.label}.{failure.source} -> {failure.new.label}.{failure.target}: " ++
    failure.cause.message

namespace Mapping

variable {σ : Type}

/-- What a mapping did: the number of targets written, and those that were not. -/
structure Outcome where
  writes : Nat := 0
  failures : List MappingFailure := []
deriving DecidableEq

def Outcome.append (first second : Outcome) : Outcome :=
  ⟨first.writes + second.writes, first.failures ++ second.failures⟩

/-- What is copied: the outputs that drive an attribute, or the value stored in it. -/
inductive Source where
  | live (plugs : List Plug)
  | stored (value : Value)
deriving DecidableEq

def readSource (reads : Reads) (node : NodeId) (attr : String) : Except HostError Source := do
  match ← reads.get node attr with
  | .connection plug => return .live [plug]
  | _ =>
    let plugs ← reads.connections node attr
    if plugs.isEmpty then return .stored (← reads.getStatic node attr) else return .live plugs

/-- Connects outputs to an attribute, one after the other, until one is refused. -/
def connectAll (host : Host σ) (node : NodeId) (attr : String) : List Plug → Action σ Unit
  | [] => pure ()
  | plug :: rest => do
    host.connect plug node attr
    connectAll host node attr rest

def writeSource (host : Host σ) (source : Source) (node : NodeId) (target : String) :
    Action σ Unit :=
  match source with
  | .live plugs => connectAll host node target plugs
  | .stored value => host.set node target value

def ofAttempt (old new : NodeId) (source target : String) : Except MappingCause Unit → Outcome
  | .ok () => { writes := 1 }
  | .error cause => { failures := [⟨old, new, source, target, cause⟩] }

def copy (host : Host σ) (old new : NodeId) (source : String) (read : Source) :
    List String → StateM σ Outcome
  | [] => pure {}
  | target :: rest => fun state =>
    let (written, state) := writeSource host read new target state
    let first := ofAttempt old new source target (written.mapError .host)
    let (others, state) := copy host old new source read rest state
    (first.append others, state)

/-- The computed value of one target.  A fixed value does not need the source to be readable. -/
def computeValue (reads : Reads) (stored : Except HostError Value) (old new : NodeId) :
    Converter → Except MappingCause Value
  | .constant fixed => .ok fixed
  | converter =>
    match stored with
    | .error cause => .error (.host cause)
    | .ok value => (converter.evaluate value ⟨reads, old⟩ ⟨reads, new⟩).mapError .converter

def computeTarget (host : Host σ) (stored : Except HostError Value) (old new : NodeId)
    (target : String) (converter : Converter) (state : σ) : Except MappingCause Unit × σ :=
  match computeValue (host.reads state) stored old new converter with
  | .error cause => (.error cause, state)
  | .ok value =>
    let (written, state) := host.set new target value state
    (written.mapError .host, state)

def compute (host : Host σ) (old new : NodeId) (source : String) (stored : Except HostError Value) :
    List (String × Converter) → StateM σ Outcome
  | [] => pure {}
  | (target, converter) :: rest => fun state =>
    let (written, state) := computeTarget host stored old new target converter state
    let first := ofAttempt old new source target written
    let (others, state) := compute host old new source stored rest state
    (first.append others, state)

/-- Copies one attribute; when it cannot be read, every target fails. -/
def copyFrom (host : Host σ) (old new : NodeId) (source : String) (targets : List String) :
    StateM σ Outcome := fun state =>
  match readSource (host.reads state) old source with
  | .ok read => copy host old new source read targets state
  | .error cause =>
    ({ failures := targets.map fun target => ⟨old, new, source, target, .host cause⟩ }, state)

def apply (host : Host σ) (source : String) (rule : AttributeRule) (old new : NodeId) :
    StateM σ Outcome :=
  match rule with
  | .rename target => copyFrom host old new source [target]
  | .fanOut targets => copyFrom host old new source targets
  | .computed converters => fun state =>
    compute host old new source ((host.reads state).getStatic old source) converters.entries state

def applyAll (host : Host σ) (old new : NodeId) : List (String × AttributeRule) → StateM σ Outcome
  | [] => pure {}
  | (source, rule) :: rest => fun state =>
    let (first, state) := apply host source rule old new state
    let (others, state) := applyAll host old new rest state
    (first.append others, state)

/-- Writes every target of a rule in order; one that fails is recorded, and the next one is tried. -/
def mapAttributes (host : Host σ) (rule : Rule σ) (old new : NodeId) : StateM σ Outcome :=
  applyAll host old new rule.attributes.entries

theorem copy_cons (host : Host σ) (old new : NodeId) (source : String) (read : Source)
    (target : String) (rest : List String) (state : σ) :
    copy host old new source read (target :: rest) state =
      let written := writeSource host read new target state
      let others := copy host old new source read rest written.2
      ((ofAttempt old new source target (written.1.mapError .host)).append others.1, others.2) := rfl

theorem total_ofAttempt (old new : NodeId) (source target : String)
    (result : Except MappingCause Unit) :
    (ofAttempt old new source target result).writes +
      (ofAttempt old new source target result).failures.length = 1 := by
  cases result <;> rfl

end Mapping

end ShaderMigration
