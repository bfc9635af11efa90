import ShaderMigration.NodeSpec.Build
import ShaderMigration.Proofs.CleanupInvariant
import ShaderMigration.Proofs.ConversionStep

namespace ShaderMigration

/-- A request to a host to change its scene. -/
inductive HostCall where
  | rename (node : NodeId) (name : String)
  | create (type : String) (secondary : Option String)
  | set (node : NodeId) (attr : String) (value : Value)
  | connect (source : Plug) (node : NodeId) (attr : String)
  | setIndexed (node : NodeId) (attr : String) (index : Nat) (value : Value)
  | setTag (node : NodeId) (key text : String)
deriving DecidableEq

namespace Host

variable {σ : Type}

/-- The state that a call leaves behind, whether it succeeds or fails. -/
def after (host : Host σ) (state : σ) : HostCall → σ
  | .rename node name => (host.rename node name state).2
  | .create type secondary => (host.create type secondary state).2
  | .set node attr value => (host.set node attr value state).2
  | .connect source node attr => (host.connect source node attr state).2
  | .setIndexed node attr index value => (host.setIndexed node attr index value state).2
  | .setTag node key text => (host.setTag node key text state).2

def afterAll (host : Host σ) (calls : List HostCall) (state : σ) : σ :=
  calls.foldl host.after state

/-- A sequence of calls leads from one state to the other. -/
def Reaches (host : Host σ) (before later : σ) : Prop := ∃ calls, host.afterAll calls before = later

def ReachesBy (host : Host σ) (P : HostCall → Prop) (before later : σ) : Prop :=
  ∃ calls, (∀ call ∈ calls, P call) ∧ host.afterAll calls before = later

namespace Reaches

variable {host : Host σ} {first second third : σ}

theorem refl (state : σ) : host.Reaches state state := ⟨[], rfl⟩

theorem call (state : σ) (call : HostCall) : host.Reaches state (host.after state call) :=
  ⟨[call], rfl⟩

theorem trans (h : host.Reaches first second) (h' : host.Reaches second third) :
    host.Reaches first third := by
  obtain ⟨calls, rfl⟩ := h
  obtain ⟨calls', rfl⟩ := h'
  exact ⟨calls ++ calls', List.foldl_append⟩

end Reaches

namespace ReachesBy

variable {host : Host σ} {P : HostCall → Prop} {first second third : σ}

theorem refl (state : σ) : host.ReachesBy P state state := ⟨[], List.forall_mem_nil _, rfl⟩

theorem call (state : σ) {call : HostCall} (h : P call) :
    host.ReachesBy P state (host.after state call) :=
  ⟨[call], List.forall_mem_singleton.mpr h, rfl⟩

theorem trans (h : host.ReachesBy P first second) (h' : host.ReachesBy P second third) :
    host.ReachesBy P first third := by
  obtain ⟨calls, hcalls, rfl⟩ := h
  obtain ⟨calls', hcalls', rfl⟩ := h'
  exact ⟨calls ++ calls', List.forall_mem_append.mpr ⟨hcalls, hcalls'⟩, List.foldl_append⟩

theorem reaches (h : host.ReachesBy P first second) : host.Reaches first second := by
  obtain ⟨calls, _, hlast⟩ := h
  exact ⟨calls, hlast⟩

end ReachesBy

end Host

open Host (Reaches)

namespace Mapping

variable {σ : Type} {host : Host σ}

theorem reaches_keeps (host : Host σ) (old new : NodeId) (start : σ) :
    Keeps host old new (host.Reaches start) fun _ => True where
  get := fun _ _ => trivial
  getStatic := fun _ _ => trivial
  connections := fun _ _ _ _ => trivial
  connect := fun plug attr h _ => h.trans (.call _ (.connect plug new attr))
  set := fun attr value h _ => h.trans (.call _ (.set new attr value))

theorem reaches_mapAttributes (rule : Rule σ) (old new : NodeId) (state : σ) :
    host.Reaches state (mapAttributes host rule old new state).2 :=
  (reaches_keeps host old new state).mapAttributes rule.respects_true (.refl state)

end Mapping

/-- The steps of a rule do their work by calls to the host. -/
structure Rule.StepsByCalls {σ : Type} (host : Host σ) (rule : Rule σ) : Prop where
  before : ∀ step ∈ rule.before, ∀ old state, host.Reaches state (step host old state).2
  after : ∀ step ∈ rule.after, ∀ old new state, host.Reaches state (step host old new state).2

theorem Rule.Stepless.stepsByCalls {σ : Type} {rule : Rule σ} (h : rule.Stepless) (host : Host σ) :
    rule.StepsByCalls host where
  before := by simp [h.before]
  after := by simp [h.after]

namespace Migrator

variable {σ : Type} {migrator : Migrator σ} {rule : Rule σ}

section

variable (hsteps : rule.StepsByCalls migrator.host)
include hsteps

theorem reaches_runBefore (old : NodeId) (state : σ) :
    migrator.host.Reaches state (migrator.runBefore rule old state).2 := by
  unfold runBefore
  cases hstep : rule.before with
  | none => exact .refl state
  | some step => exact hsteps.before step hstep old state

theorem reaches_runAfter (old new : NodeId) (state : σ) :
    migrator.host.Reaches state (migrator.runAfter rule old new state).2 := by
  unfold runAfter
  cases hstep : rule.after with
  | none => exact .refl state
  | some step => exact hsteps.after step hstep old new state

theorem reaches_keepNode (old : NodeId) (state : σ) :
    migrator.host.Reaches state (migrator.keepNode rule old state).2 := by
  have hmapped : migrator.host.Reaches state
      (Mapping.mapAttributes migrator.host rule old old state).2 :=
    Mapping.reaches_mapAttributes rule old old state
  unfold keepNode
  cases rule.inPlace with
  | true => exact hmapped.trans (reaches_runAfter hsteps old old _)
  | false => exact reaches_runAfter hsteps old old state

omit hsteps in
theorem reaches_label (host : Host σ) (namer : Namer) (old new : NodeId) (token : String)
    (state : σ) : host.Reaches state (namer.label host old new token state).2.2 := by
  unfold Namer.label
  split
  next => exact .refl state
  next name _ _ => exact .call state (.rename new name)

theorem reaches_fillReplacement (token : String) (old new : NodeId) (run : Run σ) :
    migrator.host.Reaches run.state (migrator.fillReplacement rule token old new run).2.state :=
  (reaches_label migrator.host run.namer old new token run.state).trans
    ((Mapping.reaches_mapAttributes rule old new _).trans (reaches_runAfter hsteps old new _))

theorem reaches_replaceNode (target : String) (old : NodeId) (run : Run σ) :
    migrator.host.Reaches run.state (migrator.replaceNode rule target old run).2.state := by
  have hcreated : migrator.host.Reaches run.state
      (migrator.host.after run.state (.create target rule.secondary)) := .call run.state _
  rw [Host.after] at hcreated
  unfold replaceNode
  split
  next heq => rwa [heq] at hcreated
  next new state heq =>
    rw [heq] at hcreated
    exact hcreated.trans (reaches_fillReplacement hsteps _ old new { run with state })

theorem reaches_applyRule (old : NodeId) (run : Run σ) :
    migrator.host.Reaches run.state (migrator.applyRule rule old run).2.state := by
  have hbefore := reaches_runBefore hsteps old run.state
  unfold applyRule
  cases rule.target with
  | none => exact hbefore.trans (reaches_keepNode hsteps old _)
  | some target =>
    exact hbefore.trans (reaches_replaceNode hsteps target old
      { run with state := (migrator.runBefore rule old run.state).2 })

end

theorem reaches_convertNode
    (hsteps : ∀ entry ∈ migrator.sheet.entries, entry.2.StepsByCalls migrator.host) (inline : Bool)
    (old : NodeId) (run : Run σ) :
    migrator.host.Reaches run.state (migrator.convertNode inline old run).2.state := by
  rcases convertNode_cases migrator inline old run with
    ⟨cause, heq⟩ | heq | ⟨type, rule, failures, _, hrule, heq⟩
  · rw [heq]
    exact .refl _
  · rw [heq]
    exact .refl _
  · rw [heq]
    exact reaches_applyRule (hsteps _ (Table.mem_entries_iff.mpr hrule)) old run

theorem reaches_autoConvert
    (hsteps : ∀ entry ∈ migrator.sheet.entries, entry.2.StepsByCalls migrator.host) (run : Run σ) :
    migrator.host.Reaches run.state (migrator.autoConvert run).2.state := by
  have hstep : migrator.StepKeeps fun _ later => migrator.host.Reaches run.state later.state :=
    fun _ node later h => h.trans (reaches_convertNode hsteps false node later)
  exact @StepKeeps.autoConvert σ migrator _ hstep [] run (.refl run.state)

end Migrator

namespace Cleanup

variable {σ M : Type} [Memory M] {host : Host σ}

/-- What a cleanup asks of the host: to connect an output, to an attribute or in a slot of an array. -/
inductive Repoints : HostCall → Prop
  | connect (source : Plug) (node : NodeId) (attr : String) : Repoints (.connect source node attr)
  | setIndexed (node : NodeId) (attr : String) (index : Nat) (source : Plug) :
      Repoints (.setIndexed node attr index (.connection source))

theorem reachesBy_repoint (consumer : Consumer) (new : NodeId) (state : σ) :
    host.ReachesBy Repoints state (repoint host consumer new state).2 := by
  unfold repoint
  cases consumer.index with
  | none => exact .call state (Repoints.connect _ consumer.parent consumer.attr)
  | some index => exact .call state (Repoints.setIndexed consumer.parent consumer.attr index _)

theorem reachesBy_repointConsumer (pair : Replacement) (p : Progress σ M) (consumer : Consumer) :
    host.ReachesBy Repoints p.state (repointConsumer host pair p consumer).state := by
  have hrepoint : host.ReachesBy Repoints p.state (repoint host consumer pair.new p.state).2 :=
    reachesBy_repoint consumer pair.new p.state
  unfold repointConsumer
  split
  next heq => rwa [heq] at hrepoint
  next heq => rwa [heq] at hrepoint

theorem reachesBy_foldl (pair : Replacement) (consumers : List Consumer) (p : Progress σ M) :
    host.ReachesBy Repoints p.state (consumers.foldl (repointConsumer host pair) p).state := by
  induction consumers generalizing p with
  | nil => exact .refl p.state
  | cons consumer rest ih => exact (reachesBy_repointConsumer pair p consumer).trans (ih _)

theorem reachesBy_repointPair? {olds : List NodeId} {p later : Progress σ M} {pair : Replacement}
    (h : repointPair? host olds p pair = some later) : host.ReachesBy Repoints p.state later.state := by
  obtain ⟨found, _, rfl⟩ := Option.map_eq_some_iff.mp h
  exact reachesBy_foldl pair _ { p with resolver := found.2 }

theorem reachesBy_foldlM {olds : List NodeId} {pairs : List Replacement} {p later : Progress σ M}
    (h : pairs.foldlM (repointPair? host olds) p = some later) :
    host.ReachesBy Repoints p.state later.state := by
  induction pairs generalizing p with
  | nil => exact Option.some.inj h ▸ .refl p.state
  | cons pair rest ih =>
    rw [List.foldlM_cons] at h
    obtain ⟨mid, hmid, h⟩ := Option.bind_eq_some_iff.mp h
    exact (reachesBy_repointPair? hmid).trans (ih h)

theorem reachesBy_cleanUp? {options : Options} {pairs : List Replacement} {state later : σ}
    {report : Report} (h : cleanUp? (M := M) host options pairs state = some (report, later)) :
    host.ReachesBy Repoints state later := by
  rw [cleanUp?_eq] at h
  obtain ⟨p, hfold, heq⟩ := Option.map_eq_some_iff.mp h
  obtain ⟨_, rfl⟩ := Prod.mk.inj heq
  exact reachesBy_foldlM hfold

end Cleanup

namespace Build

variable {σ α β : Type} {host : Host σ} {options : BuildOptions}

/-- A step of a build that does its work by calls to the host, whether it succeeds or fails. -/
def ByCalls (host : Host σ) (step : BuildStep σ α) : Prop :=
  ∀ building, host.Reaches building.state (step building).2.state

namespace ByCalls

theorem of_still {step : BuildStep σ α}
    (h : ∀ building, (step building).2.state = building.state) : ByCalls host step :=
  fun building => (h building).symm ▸ .refl building.state

theorem bind {step : BuildStep σ α} {next : α → BuildStep σ β} (h : ByCalls host step)
    (hnext : ∀ result, ByCalls host (next result)) : ByCalls host (step >>= next) := by
  intro building
  have hbind : (step >>= next) building =
      ExceptT.bindCont next (step building).1 (step building).2 := rfl
  have hfirst := h building
  rw [hbind]
  cases hstep : step building with
  | mk answer mid =>
    rw [hstep] at hfirst
    cases answer with
    | error cause => exact hfirst
    | ok result => exact hfirst.trans (hnext result mid)

theorem pure (result : α) : ByCalls host (Pure.pure result : BuildStep σ α) :=
  .of_still fun _ => rfl

theorem of_attempt {node : NodeId} {key : String} {action : Action σ Unit}
    (h : ∀ state, host.Reaches state (action state).2) : ByCalls host (attempt node key action) := by
  intro building
  have hdone := h building.state
  unfold attempt
  split
  next heq => rwa [heq] at hdone
  next heq => rwa [heq] at hdone

theorem of_create (type : String) : ByCalls host (create host type) := by
  intro building
  have hdone : host.Reaches building.state (host.after building.state (.create type none)) :=
    .call building.state _
  rw [Host.after] at hdone
  unfold create
  split
  next heq => rwa [heq] at hdone
  next heq => rwa [heq] at hdone

theorem of_connect (node : NodeId) (key attr : String) (source : Plug) :
    ByCalls host (attempt node key (host.connect source node attr)) :=
  .of_attempt fun state => .call state (.connect source node attr)

theorem of_feedByTag (node : NodeId) (tag : String) {otherwise : BuildStep σ Unit}
    (h : ByCalls host otherwise) : ByCalls host (feedByTag host options node tag otherwise) := by
  intro building
  unfold feedByTag
  split
  next => exact of_connect node _ _ _ building
  next => exact h building

theorem of_wait (node : NodeId) (tag : String) : ByCalls host (wait options node tag) := by
  unfold wait
  split
  next => exact .of_still fun _ => rfl
  next => exact .of_still fun _ => rfl

theorem of_tagNode (node : NodeId) (tag : String) : ByCalls host (tagNode host options node tag) := by
  have hattempt : ByCalls host (attempt node options.tagKey (host.setTag node options.tagKey tag)) :=
    .of_attempt fun state => .call state (.setTag node options.tagKey tag)
  refine hattempt.bind fun _ => .of_still fun building => ?_
  change (if building.output.tags.contains tag then building else _).state = building.state
  split
  next => rfl
  next => rfl

end ByCalls

mutual

theorem byCalls_build : ∀ spec : NodeSpec, ByCalls host (build host options spec)
  | ⟨type, attrs, inputs, tag, feed⟩ => by
    unfold build
    refine (ByCalls.of_create type).bind fun node => ?_
    refine (byCalls_assignAttrs node attrs).bind fun _ => ?_
    refine ByCalls.bind (.of_still fun _ => rfl) fun entries => ?_
    refine (byCalls_assignInputs node entries inputs).bind fun _ => ?_
    have hfeed : ByCalls host (do
        feedNode host options node feed
        return node) := (byCalls_feedNode node feed).bind fun _ => .pure node
    cases tag with
    | none => exact hfeed
    | some tag => exact (ByCalls.of_tagNode node tag).bind fun _ => hfeed

theorem byCalls_assignAttrs (node : NodeId) : ∀ entries : List (String × SpecValue),
    ByCalls host (assignAttrs host options node entries)
  | [] => .pure ()
  | (key, value) :: rest =>
    (byCalls_assign node key key value).bind fun _ => byCalls_assignAttrs node rest

theorem byCalls_assignInputs (node : NodeId) (known : Except HostError (List InputEntry)) :
    ∀ entries : List (String × SpecValue), ByCalls host (assignInputs host options node known entries)
  | [] => .pure ()
  | entry :: rest =>
    (byCalls_assignInput node known entry).bind fun _ => byCalls_assignInputs node known rest

theorem byCalls_assignInput (node : NodeId) (known : Except HostError (List InputEntry)) :
    ∀ entry : String × SpecValue, ByCalls host (assignInput host options node known entry)
  | (id, value) => by
    unfold assignInput
    split
    next attr _ => exact byCalls_assign node id attr value
    next => exact .of_still fun _ => rfl

theorem byCalls_assign (node : NodeId) (key attr : String) : ∀ value : SpecValue,
    ByCalls host (assign host options node key attr value)
  | .literal value => .of_attempt fun state => .call state (.set node attr value)
  | .spec spec => (byCalls_build spec).bind fun _ => .of_connect node key attr _

theorem byCalls_feedNode (node : NodeId) : ∀ feed : Feed, ByCalls host (feedNode host options node feed)
  | .nothing => .pure ()
  | .node spec => (byCalls_build spec).bind fun _ => .of_connect node _ _ _
  | .tagged tag => .of_feedByTag node tag (.of_wait node tag)

end

theorem byCalls_buildRoots : ∀ specs : List NodeSpec, ByCalls host (buildRoots host options specs)
  | [] => .pure ()
  | spec :: rest => (byCalls_build spec).bind fun _ =>
    ByCalls.bind (.of_still fun _ => rfl) fun _ => byCalls_buildRoots rest

theorem byCalls_resolveWaiting : ∀ waiting : List (NodeId × String),
    ByCalls host (resolveWaiting host options waiting)
  | [] => .pure ()
  | (node, tag) :: rest =>
    (ByCalls.of_feedByTag node tag (.of_still fun _ => rfl)).bind fun _ =>
      byCalls_resolveWaiting rest

theorem reaches_build (tree : NodeTree) (host : Host σ) (options : BuildOptions) (state : σ) :
    host.Reaches state (tree.build host options state).2 := by
  have hall : ByCalls host (buildAll host options tree.roots) :=
    (byCalls_buildRoots tree.roots).bind fun _ =>
      ByCalls.bind (.of_still fun _ => rfl) fun building => byCalls_resolveWaiting building.waiting
  have hdone := hall { state }
  unfold NodeTree.build
  split
  next heq => rwa [heq] at hdone
  next heq => rwa [heq] at hdone

end Build

end ShaderMigration
