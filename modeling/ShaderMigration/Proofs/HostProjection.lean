import ShaderMigration.Graph.Cleanup
import ShaderMigration.Proofs.ConversionInvariant

namespace ShaderMigration

variable {σ τ : Type}

/-- On the image of a state the second computation gives the same result as the first one on the
state, and leaves the image of what that leaves. -/
def Tracks {α : Type} (f : τ → σ) (first : τ → α × τ) (second : σ → α × σ) : Prop :=
  ∀ t, second (f t) = ((first t).1, f (first t).2)

/-- The map carries each operation of the first host to that of the second one. -/
structure Host.Projects (f : τ → σ) (first : Host τ) (second : Host σ) : Prop where
  reads : ∀ t, second.reads (f t) = first.reads t
  rename : ∀ node name, Tracks f (first.rename node name) (second.rename node name)
  create : ∀ type secondary, Tracks f (first.create type secondary) (second.create type secondary)
  set : ∀ node attr value, Tracks f (first.set node attr value) (second.set node attr value)
  connect : ∀ plug node attr,
    Tracks f (first.connect plug node attr) (second.connect plug node attr)
  setIndexed : ∀ node attr index value,
    Tracks f (first.setIndexed node attr index value) (second.setIndexed node attr index value)

def Rule.withoutSteps (rule : Rule σ) : Rule τ :=
  { target := rule.target
    secondary := rule.secondary
    naming := rule.naming
    inPlace := rule.inPlace
    attributes := rule.attributes
    textureJob := rule.textureJob }

def Sheet.withoutSteps (sheet : Sheet σ) : Sheet τ := sheet.map Rule.withoutSteps

namespace Mapping

variable {f : τ → σ} {first : Host τ} {second : Host σ} (p : first.Projects f second)
  {old new : NodeId}
include p

theorem tracks_connectAll (node : NodeId) (attr : String) (plugs : List Plug) :
    Tracks f (connectAll first node attr plugs) (connectAll second node attr plugs) := by
  induction plugs with
  | nil => exact fun t => rfl
  | cons plug rest ih =>
    intro t
    rw [connectAll, connectAll, action_bind, action_bind, p.connect]
    obtain ⟨result, later⟩ := first.connect plug node attr t
    cases result with
    | error cause => rfl
    | ok _ => exact ih later

theorem tracks_writeSource (source : Source) (node : NodeId) (target : String) :
    Tracks f (writeSource first source node target) (writeSource second source node target) := by
  cases source with
  | live plugs => exact tracks_connectAll p node target plugs
  | stored value => exact p.set node target value

theorem tracks_copy (attr : String) (source : Source) (targets : List String) :
    Tracks f (copy first old new attr source targets)
      (copy second old new attr source targets) := by
  induction targets with
  | nil => exact fun t => rfl
  | cons target rest ih =>
    intro t
    simp only [copy_cons, tracks_writeSource p source new target t]
    rw [ih]

theorem tracks_copyFrom (attr : String) (targets : List String) :
    Tracks f (copyFrom first old new attr targets) (copyFrom second old new attr targets) := by
  intro t
  unfold copyFrom
  rw [p.reads]
  cases readSource (first.reads t) old attr with
  | error cause => rfl
  | ok source => exact tracks_copy p attr source targets t

theorem tracks_computeTarget (stored : Except HostError Value) (target : String)
    (converter : Converter) :
    Tracks f (computeTarget first stored old new target converter)
      (computeTarget second stored old new target converter) := by
  intro t
  unfold computeTarget
  rw [p.reads]
  cases computeValue (first.reads t) stored old new converter with
  | error cause => rfl
  | ok value =>
    dsimp only
    rw [p.set]
    rfl

theorem tracks_compute (attr : String) (stored : Except HostError Value)
    (converters : List (String × Converter)) :
    Tracks f (compute first old new attr stored converters)
      (compute second old new attr stored converters) := by
  induction converters with
  | nil => exact fun t => rfl
  | cons entry rest ih =>
    intro t
    simp only [compute, tracks_computeTarget p stored entry.1 entry.2 t]
    rw [ih]
    rfl

theorem tracks_apply (attr : String) (rule : AttributeRule) :
    Tracks f (apply first attr rule old new) (apply second attr rule old new) := by
  cases rule with
  | rename target => exact tracks_copyFrom p attr [target]
  | fanOut targets => exact tracks_copyFrom p attr targets
  | computed converters =>
    intro t
    simp only [apply, p.reads]
    exact tracks_compute p attr _ converters.entries t

theorem tracks_applyAll (rules : List (String × AttributeRule)) :
    Tracks f (applyAll first old new rules) (applyAll second old new rules) := by
  induction rules with
  | nil => exact fun t => rfl
  | cons entry rest ih =>
    intro t
    simp only [applyAll, tracks_apply p entry.1 entry.2 t]
    rw [ih]
    rfl

theorem tracks_mapAttributes (rule : Rule σ) (old new : NodeId) :
    Tracks f (mapAttributes first rule.withoutSteps old new) (mapAttributes second rule old new) :=
  tracks_applyAll p rule.attributes.entries

end Mapping

theorem Namer.label_projects {f : τ → σ} {first : Host τ} {second : Host σ}
    (p : first.Projects f second) (old new : NodeId) (token : String) (namer : Namer) (t : τ) :
    namer.label second old new token (f t) =
      ((namer.label first old new token t).1, (namer.label first old new token t).2.1,
        f (namer.label first old new token t).2.2) := by
  unfold label
  rw [p.reads]
  cases namer.propose (first.reads t) old new token with
  | error cause => rfl
  | ok named =>
    dsimp only
    rw [p.rename]
    rfl

def Run.map (f : τ → σ) (run : Run τ) : Run σ := ⟨run.namer, f run.state⟩

/-- The conversion by the rules without their steps, on another host. -/
def Migrator.onHost (migrator : Migrator σ) (host : Host τ) : Migrator τ :=
  { host, sheet := Sheet.withoutSteps migrator.sheet, workshop := migrator.workshop }

namespace Migrator

variable {f : τ → σ} {host : Host τ} {migrator : Migrator σ}
  (p : host.Projects f migrator.host) {rule : Rule σ}
include p

theorem tracks_keepNode (hafter : rule.after = none) (old : NodeId) :
    Tracks f ((migrator.onHost host).keepNode rule.withoutSteps old)
      (migrator.keepNode rule old) := by
  intro t
  have hsteps : (rule.withoutSteps : Rule τ).after = none := rfl
  rw [keepNode_eq migrator hafter, keepNode_eq (migrator.onHost host) hsteps]
  have hplace : (rule.withoutSteps : Rule τ).inPlace = rule.inPlace := rfl
  rw [hplace]
  split
  next =>
    have hmap := Mapping.tracks_mapAttributes p rule old old t
    dsimp only
    rw [hmap]
    rfl
  next => rfl

theorem tracks_fillReplacement (hafter : rule.after = none) (token : String) (old new : NodeId) :
    Tracks (Run.map f) ((migrator.onHost host).fillReplacement rule.withoutSteps token old new)
      (migrator.fillReplacement rule token old new) := by
  intro run
  have hlabel := Namer.label_projects p old new token run.namer run.state
  have hmap := Mapping.tracks_mapAttributes p rule old new
    (run.namer.label host old new token run.state).2.2
  unfold fillReplacement
  simp only [runAfter_of_none hafter, Run.map, hlabel, hmap]
  rfl

theorem tracks_replaceNode (hafter : rule.after = none) (target : String) (old : NodeId) :
    Tracks (Run.map f) ((migrator.onHost host).replaceNode rule.withoutSteps target old)
      (migrator.replaceNode rule target old) := by
  intro run
  have hcreate := p.create target rule.secondary run.state
  unfold replaceNode
  have hstate : (run.map f).state = f run.state := rfl
  have hhost : (migrator.onHost host).host = host := rfl
  have hsecondary : (rule.withoutSteps : Rule τ).secondary = rule.secondary := rfl
  rw [hstate, hcreate, hhost, hsecondary]
  obtain ⟨result, later⟩ := host.create target rule.secondary run.state
  cases result with
  | error cause => rfl
  | ok new =>
    exact tracks_fillReplacement p hafter (rule.nameToken.getD target) old new ⟨run.namer, later⟩

theorem tracks_applyRule (hbefore : rule.before = none) (hafter : rule.after = none)
    (old : NodeId) :
    Tracks (Run.map f) ((migrator.onHost host).applyRule rule.withoutSteps old)
      (migrator.applyRule rule old) := by
  intro run
  have hsteps : (rule.withoutSteps : Rule τ).before = none := rfl
  rw [applyRule_eq migrator hbefore, applyRule_eq (migrator.onHost host) hsteps]
  have htarget : (rule.withoutSteps : Rule τ).target = rule.target := rfl
  rw [htarget]
  cases rule.target with
  | none =>
    have hkeep := tracks_keepNode p hafter old run.state
    have hstate : (run.map f).state = f run.state := rfl
    dsimp only
    rw [hstate, hkeep]
    rfl
  | some target => exact tracks_replaceNode p hafter target old run

variable (hsheet : ∀ entry ∈ migrator.sheet.entries, entry.2.before = none ∧ entry.2.after = none)
include hsheet

theorem tracks_convertNode (inline : Bool) (old : NodeId) :
    Tracks (Run.map f) ((migrator.onHost host).convertNode inline old)
      (migrator.convertNode inline old) := by
  intro run
  have hreads : migrator.host.reads (run.map f).state = host.reads run.state := p.reads run.state
  have hhost : (migrator.onHost host).host = host := rfl
  unfold convertNode
  simp only [hreads, hhost]
  cases (host.reads run.state).nodeType old with
  | error cause => rfl
  | ok type =>
    have hfind : (migrator.onHost host).sheet.find? type =
        (migrator.sheet.find? type).map Rule.withoutSteps := Table.find?_map _ _ _
    dsimp only
    rw [hfind]
    cases hrule : migrator.sheet.find? type with
    | none => rfl
    | some rule =>
      obtain ⟨hbefore, hafter⟩ := hsheet _ (Table.mem_entries_iff.mpr hrule)
      simp only [Option.map_some]
      rw [tracks_applyRule p hbefore hafter old run]
      rfl

theorem tracks_convertNodes (pending : Pending) (nodes : List NodeId) :
    Tracks (Run.map f) ((migrator.onHost host).convertNodes pending nodes)
      (migrator.convertNodes pending nodes) := by
  induction nodes generalizing pending with
  | nil => exact fun t => rfl
  | cons node rest ih =>
    intro run
    rw [convertNodes_cons, convertNodes_cons, tracks_convertNode p hsheet false node run]
    dsimp only
    rw [ih]

theorem tracks_convertType (type : String) (rule : Rule σ) :
    Tracks (Run.map f) ((migrator.onHost host).convertType type rule.withoutSteps)
      (migrator.convertType type rule) := by
  intro run
  have hreads : migrator.host.reads (run.map f).state = host.reads run.state := p.reads run.state
  unfold convertType
  rw [hreads]
  exact tracks_convertNodes p hsheet _ _ run

theorem tracks_convertTypes (types : List (String × Rule σ)) :
    Tracks (Run.map f) ((migrator.onHost host).convertTypes
        (types.map fun entry => (entry.1, entry.2.withoutSteps)))
      (migrator.convertTypes types) := by
  induction types with
  | nil => exact fun t => rfl
  | cons entry rest ih =>
    intro run
    rw [List.map_cons, convertTypes_cons, convertTypes_cons,
      tracks_convertType p hsheet entry.1 entry.2 run]
    dsimp only
    rw [ih]

/-- A whole conversion by rules without steps is the image of that on the other host. -/
theorem tracks_autoConvert :
    Tracks (Run.map f) (migrator.onHost host).autoConvert migrator.autoConvert := by
  intro run
  have htypes := tracks_convertTypes p hsheet migrator.sheet.entries run
  have heq : ∀ {υ : Type} (m : Migrator υ) (r : Run υ), m.autoConvert r =
      (⟨(m.convertTypes m.sheet.entries r).1⟩, (m.convertTypes m.sheet.entries r).2) :=
    fun _ _ => rfl
  rw [heq, heq, htypes]
  rfl

end Migrator

namespace Cleanup

variable {M : Type} [Memory M] {f : τ → σ} {first : Host τ} {second : Host σ}

def Progress.map (f : τ → σ) (p : Progress τ M) : Progress σ M := ⟨f p.state, p.resolver, p.report⟩

variable (p : first.Projects f second)
include p

omit [Memory M] in
theorem tracks_repoint (consumer : Consumer) (new : NodeId) :
    Tracks f (repoint first consumer new) (repoint second consumer new) := by
  unfold repoint
  cases consumer.index with
  | none => exact p.connect _ _ _
  | some index => exact p.setIndexed _ _ _ _

theorem repointConsumer_map (pair : Replacement) (q : Progress τ M) (consumer : Consumer) :
    repointConsumer second pair (q.map f) consumer =
      (repointConsumer first pair q consumer).map f := by
  have hrepoint := tracks_repoint p consumer pair.new q.state
  have hstate : (q.map f).state = f q.state := rfl
  unfold repointConsumer
  rw [hstate, hrepoint]
  obtain ⟨result, later⟩ := repoint first consumer pair.new q.state
  cases result with
  | error cause => rfl
  | ok _ => rfl

theorem repointPair?_map (olds : List NodeId) (q : Progress τ M) (pair : Replacement) :
    repointPair? second olds (q.map f) pair = (repointPair? first olds q pair).map (.map f) := by
  have hfold : ∀ (consumers : List Consumer) (q : Progress τ M),
      consumers.foldl (repointConsumer second pair) (q.map f) =
        (consumers.foldl (repointConsumer first pair) q).map f := by
    intro consumers
    induction consumers with
    | nil => exact fun _ => rfl
    | cons consumer rest ih =>
      intro q
      rw [List.foldl_cons, List.foldl_cons, repointConsumer_map p, ih]
  have hreads : second.reads (q.map f).state = first.reads q.state := p.reads q.state
  unfold repointPair?
  rw [hreads, Option.map_map]
  congr 1
  funext answer
  obtain ⟨found, resolver⟩ := answer
  exact hfold _ { q with resolver }

theorem cleanUp?_map (options : Options) (pairs : List Replacement) (t : τ) :
    cleanUp? (M := M) second options pairs (f t) =
      (cleanUp? (M := M) first options pairs t).map fun result => (result.1, f result.2) := by
  have hfold : ∀ (rest : List Replacement) (olds : List NodeId) (q : Progress τ M),
      rest.foldlM (repointPair? second olds) (q.map f) =
        (rest.foldlM (repointPair? first olds) q).map (.map f) := by
    intro rest olds
    induction rest with
    | nil => exact fun _ => rfl
    | cons pair rest ih =>
      intro q
      rw [List.foldlM_cons, List.foldlM_cons, repointPair?_map p]
      cases repointPair? first olds q pair with
      | none => rfl
      | some later => exact ih later
  let start : Progress τ M :=
    { state := t, resolver := resolver options (first.reads t).roots pairs }
  have hsecond : cleanUp? (M := M) second options pairs (f t) =
      ((replaced pairs).foldlM (repointPair? second ((replaced pairs).map Replacement.old))
        (start.map f)).map fun q => (q.report, q.state) := by
    unfold cleanUp?
    dsimp only
    rw [p.reads]
    rfl
  rw [hsecond, hfold, Option.map_map]
  unfold cleanUp?
  dsimp only
  rw [Option.map_map]
  rfl

end Cleanup

end ShaderMigration
