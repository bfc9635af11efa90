import ShaderMigration.Graph.Consumer

namespace ShaderMigration

structure Replacement where
  old : NodeId
  new : NodeId
deriving DecidableEq

structure Rewire where
  pair : Replacement
  consumer : Consumer
deriving DecidableEq

structure RewireFailure where
  pair : Replacement
  consumer : Consumer
  cause : HostError
deriving DecidableEq

def Consumer.slotLabel (consumer : Consumer) : String :=
  let slot := s!"{consumer.parent.label}.{consumer.attr}"
  match consumer.index with
  | some index => s!"{slot}[{index}]"
  | none => slot

def RewireFailure.message (failure : RewireFailure) : String :=
  s!"could not repoint {failure.consumer.slotLabel} from {failure.pair.old.label} " ++
    s!"to {failure.pair.new.label}: " ++ failure.cause.message

namespace Cleanup

/-- How to clean up: the size of the memo, and whether walks start from replacements too. -/
structure Options where
  cacheCapacity : Nat := 0
  replacementsAsRoots : Bool := true
deriving DecidableEq

structure Report where
  rewired : List Rewire := []
  failures : List RewireFailure := []
deriving DecidableEq

namespace Report

def isClean (report : Report) : Bool := report.failures.isEmpty

end Report

/-- The pairs in which a node was replaced by another one. -/
def replaced (pairs : List Replacement) : List Replacement :=
  pairs.filter fun pair => pair.old != pair.new

variable {σ M : Type} [Memory M]

def resolver (options : Options) (roots : List NodeId) (pairs : List Replacement) : Resolver M :=
  Resolver.ofRoots roots
    (if options.replacementsAsRoots then (replaced pairs).map Replacement.new else [])
    options.cacheCapacity

/-- Repoints one consumer at a node, on the channel that it reads. -/
def repoint (host : Host σ) (consumer : Consumer) (new : NodeId) : Action σ Unit :=
  let source : Plug := ⟨new, consumer.channel⟩
  match consumer.index with
  | none => host.connect source consumer.parent consumer.attr
  | some index => host.setIndexed consumer.parent consumer.attr index (.connection source)

/-- A cleanup on its way: the scene, the resolver, and what was done so far. -/
structure Progress (σ : Type) (M : Type := Memo) where
  state : σ
  resolver : Resolver M
  report : Report := {}

/-- Repoints one consumer and records the outcome; the resolver forgets its answers if the scene was
changed. -/
def repointConsumer (host : Host σ) (pair : Replacement) (p : Progress σ M) (consumer : Consumer) :
    Progress σ M :=
  match repoint host consumer pair.new p.state with
  | (.ok (), state) =>
    { state
      resolver := p.resolver.invalidate
      report := { p.report with rewired := p.report.rewired ++ [⟨pair, consumer⟩] } }
  | (.error cause, state) =>
    { p with
      state
      report := { p.report with failures := p.report.failures ++ [⟨pair, consumer, cause⟩] } }

/-- Handles one pair; none when a walk does not end. -/
def repointPair? (host : Host σ) (olds : List NodeId) (p : Progress σ M) (pair : Replacement) :
    Option (Progress σ M) :=
  (p.resolver.consumers? (host.reads p.state) pair.old).map fun (consumers, resolver) =>
    let kept := consumers.filter fun consumer =>
      !(olds.contains consumer.parent || consumer.parent == pair.new)
    kept.foldl (repointConsumer host pair) { p with resolver }

end Cleanup

/-- Repoints the consumers of every replaced node; none when a walk does not end. -/
def cleanUp? {σ M : Type} [Memory M] (host : Host σ) (options : Cleanup.Options)
    (pairs : List Replacement) (state : σ) : Option (Cleanup.Report × σ) :=
  let replaced := Cleanup.replaced pairs
  let start : Cleanup.Progress σ M :=
    { state, resolver := Cleanup.resolver options (host.reads state).roots pairs }
  (replaced.foldlM (Cleanup.repointPair? host (replaced.map Replacement.old)) start).map fun p =>
    (p.report, p.state)

end ShaderMigration
