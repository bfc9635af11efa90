import ShaderMigration.Graph.Cleanup
import ShaderMigration.Mapping
import ShaderMigration.Naming

namespace ShaderMigration

/-- The steps of a conversion that may fail without ending it. -/
inductive HookStage where
  | before | after | textureJob | rename
deriving DecidableEq, Repr

def HookStage.word : HookStage → String
  | before => "before-hook"
  | after => "after-hook"
  | textureJob => "asset job"
  | rename => "rename"

structure HookFailure where
  node : NodeId
  stage : HookStage
  text : String
deriving DecidableEq

def HookFailure.message (failure : HookFailure) : String :=
  s!"{failure.stage.word} failed for {failure.node.label}: {failure.text}"

inductive Outcome where
  /-- There is no rule for its type. -/
  | skipped
  /-- The rule creates nothing and writes nothing. -/
  | passthrough
  /-- The rule wrote to the node itself. -/
  | inPlace
  | converted (new : NodeId)
  /-- The replacement could not be created, or the type could not be read. -/
  | failed (cause : HostError)
deriving DecidableEq

structure NodeConversion where
  old : NodeId
  outcome : Outcome
  mappingFailures : List MappingFailure := []
  hookFailures : List HookFailure := []
deriving DecidableEq

namespace NodeConversion

def result? (conversion : NodeConversion) : Option NodeId :=
  match conversion.outcome with
  | .converted new => some new
  | .failed _ => none
  | _ => some conversion.old

def isConverted (conversion : NodeConversion) : Bool :=
  match conversion.outcome with
  | .converted _ => true
  | _ => false

def isFailed (conversion : NodeConversion) : Bool :=
  match conversion.outcome with
  | .failed _ => true
  | _ => false

def isClean (conversion : NodeConversion) : Bool :=
  conversion.mappingFailures.isEmpty && conversion.hookFailures.isEmpty && !conversion.isFailed

def addFailures (conversion : NodeConversion) (failures : List HookFailure) : NodeConversion :=
  { conversion with hookFailures := conversion.hookFailures ++ failures }

end NodeConversion

structure ConversionReport where
  conversions : List NodeConversion
deriving DecidableEq

namespace ConversionReport

def pairs (report : ConversionReport) : List Replacement :=
  report.conversions.filterMap fun conversion =>
    conversion.result?.map fun new => ⟨conversion.old, new⟩

def converted (report : ConversionReport) : Nat :=
  report.conversions.countP NodeConversion.isConverted

def failed (report : ConversionReport) : Nat := report.conversions.countP NodeConversion.isFailed

def mappingFailures (report : ConversionReport) : List MappingFailure :=
  report.conversions.flatMap NodeConversion.mappingFailures

def hookFailures (report : ConversionReport) : List HookFailure :=
  report.conversions.flatMap NodeConversion.hookFailures

def isClean (report : ConversionReport) : Bool := report.conversions.all NodeConversion.isClean

end ConversionReport

/-- A scene under conversion, with the names issued so far. -/
structure Run (σ : Type) where
  namer : Namer
  state : σ

/-- What a conversion works with: the operations on the scene, the rules, and the surroundings of
texture jobs. -/
structure Migrator (σ : Type) where
  host : Host σ
  sheet : Sheet σ
  workshop : Texture.Workshop

namespace Migrator

variable {σ : Type}

def jobFailures (node : NodeId) : Except MigrationError Texture.Report → List HookFailure
  | .error e => [⟨node, .textureJob, e.message⟩]
  | .ok report => report.failed.map fun (input, reason) => ⟨node, .textureJob, s!"{input}: {reason}"⟩

def textureFailures (migrator : Migrator σ) (rule : Rule σ) (reads : Reads) (node : NodeId) :
    List HookFailure :=
  match rule.textureJob with
  | none => []
  | some find =>
    match find reads node with
    | .error e => [⟨node, .textureJob, e.message⟩]
    | .ok none => []
    | .ok (some job) => jobFailures node (job.run migrator.workshop)

def stepFailures (node : NodeId) (stage : HookStage) : Except MigrationError Unit → List HookFailure
  | .ok () => []
  | .error e => [⟨node, stage, e.message⟩]

def runBefore (migrator : Migrator σ) (rule : Rule σ) (old : NodeId) : StateM σ (List HookFailure) :=
  match rule.before with
  | none => pure []
  | some step => fun state =>
    let (result, state) := step migrator.host old state
    (stepFailures old .before result, state)

def runAfter (migrator : Migrator σ) (rule : Rule σ) (old new : NodeId) :
    StateM σ (List HookFailure) :=
  match rule.after with
  | none => pure []
  | some step => fun state =>
    let (result, state) := step migrator.host old new state
    (stepFailures old .after result, state)

/-- Handles a node whose rule creates nothing. -/
def keepNode (migrator : Migrator σ) (rule : Rule σ) (old : NodeId) : StateM σ NodeConversion := do
  let conversion : NodeConversion ←
    if rule.inPlace then do
      let mapped ← Mapping.mapAttributes migrator.host rule old old
      pure { old, outcome := .inPlace, mappingFailures := mapped.failures }
    else pure { old, outcome := .passthrough }
  return conversion.addFailures (← migrator.runAfter rule old old)

def fillReplacement (migrator : Migrator σ) (rule : Rule σ) (token : String) (old new : NodeId) :
    StateM (Run σ) NodeConversion := fun run =>
  let (given, namer, state) := run.namer.label migrator.host old new token run.state
  let refused : List HookFailure := match given with
    | .ok _ => []
    | .error cause => [⟨old, .rename, cause.message⟩]
  let (mapped, state) := Mapping.mapAttributes migrator.host rule old new state
  let (after, state) := migrator.runAfter rule old new state
  ({ old, outcome := .converted new, mappingFailures := mapped.failures,
     hookFailures := refused ++ after }, ⟨namer, state⟩)

def replaceNode (migrator : Migrator σ) (rule : Rule σ) (target : String) (old : NodeId) :
    StateM (Run σ) NodeConversion := fun run =>
  match migrator.host.create target rule.secondary run.state with
  | (.error cause, state) => ({ old, outcome := .failed cause }, { run with state })
  | (.ok new, state) =>
    migrator.fillReplacement rule (rule.nameToken.getD target) old new { run with state }

def applyRule (migrator : Migrator σ) (rule : Rule σ) (old : NodeId) :
    StateM (Run σ) NodeConversion := fun run =>
  let (before, state) := migrator.runBefore rule old run.state
  let (conversion, run) := match rule.target with
    | none =>
      let (conversion, state) := migrator.keepNode rule old state
      (conversion, { run with state })
    | some target => migrator.replaceNode rule target old { run with state }
  ({ conversion with hookFailures := before ++ conversion.hookFailures }, run)

/-- Converts a node by the rule for its type; `inline` tells whether its texture work is still to be
done. -/
def convertNode (migrator : Migrator σ) (inline : Bool) (old : NodeId) :
    StateM (Run σ) NodeConversion := fun run =>
  let reads := migrator.host.reads run.state
  match reads.nodeType old with
  | .error cause => ({ old, outcome := .failed cause }, run)
  | .ok type =>
    match migrator.sheet.find? type with
    | none => ({ old, outcome := .skipped }, run)
    | some rule =>
      let textures := if inline then migrator.textureFailures rule reads old else []
      let (conversion, run) := migrator.applyRule rule old run
      ({ conversion with hookFailures := textures ++ conversion.hookFailures }, run)

def convert (migrator : Migrator σ) (old : NodeId) : StateM (Run σ) NodeConversion :=
  migrator.convertNode true old

/-- The failures of the texture work of a list of nodes, by node. -/
abbrev Pending := List (NodeId × List HookFailure)

def pendingFailures (migrator : Migrator σ) (rule : Rule σ) (reads : Reads) (nodes : List NodeId) :
    Pending :=
  nodes.map fun node => (node, migrator.textureFailures rule reads node)

def Pending.of (pending : Pending) (node : NodeId) : List HookFailure :=
  (pending.filter fun entry => entry.1 == node).flatMap Prod.snd

def Pending.except (pending : Pending) (node : NodeId) : Pending :=
  pending.filter fun entry => entry.1 != node

/-- Converts nodes of one type whose texture work is done. -/
def convertNodes (migrator : Migrator σ) : Pending → List NodeId → StateM (Run σ) (List NodeConversion)
  | _, [] => pure []
  | pending, node :: rest => do
    let conversion ← migrator.convertNode false node
    let conversion :=
      { conversion with hookFailures := pending.of node ++ conversion.hookFailures }
    return conversion :: (← convertNodes migrator (pending.except node) rest)

def convertType (migrator : Migrator σ) (type : String) (rule : Rule σ) :
    StateM (Run σ) (List NodeConversion) := fun run =>
  let reads := migrator.host.reads run.state
  let nodes := reads.nodesOfType type
  migrator.convertNodes (migrator.pendingFailures rule reads nodes) nodes run

def convertTypes (migrator : Migrator σ) :
    List (String × Rule σ) → StateM (Run σ) (List NodeConversion)
  | [] => pure []
  | (type, rule) :: rest => do
    let first ← migrator.convertType type rule
    return first ++ (← convertTypes migrator rest)

/-- Converts all nodes of all types of the sheet.  The nodes of a type are listed when its turn comes,
and their texture work is done before any of them is mapped. -/
def autoConvert (migrator : Migrator σ) : StateM (Run σ) ConversionReport := do
  return ⟨← migrator.convertTypes migrator.sheet.entries⟩

/-- Converts one node under a new namer, and yields the node that stands for it. -/
def convertAlone (migrator : Migrator σ) (old : NodeId) : StateM σ (Option NodeId) := fun state =>
  let (conversion, run) := migrator.convert old ⟨{}, state⟩
  (conversion.result?, run.state)

def autoConvertAlone (migrator : Migrator σ) : StateM σ (List Replacement) := fun state =>
  let (report, run) := migrator.autoConvert ⟨{}, state⟩
  (report.pairs, run.state)

end Migrator

end ShaderMigration
