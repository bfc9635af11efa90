import ShaderMigration.Proofs.ConversionInvariant
import ShaderMigration.Proofs.FreeNames
import ShaderMigration.Proofs.SceneFrame

namespace ShaderMigration

structure Rule.Stepless {σ : Type} (rule : Rule σ) : Prop where
  before : rule.before = none
  after : rule.after = none

theorem Rule.stepless_iff {σ : Type} {rule : Rule σ} :
    rule.Stepless ↔ rule.before.isNone = true ∧ rule.after.isNone = true := by
  simp only [Option.isNone_iff_eq_none]
  exact ⟨fun h => ⟨h.before, h.after⟩, fun h => ⟨h.1, h.2⟩⟩

instance {σ : Type} (rule : Rule σ) : Decidable rule.Stepless :=
  decidable_of_iff _ Rule.stepless_iff.symm

def Sheet.Stepless {σ : Type} (sheet : Sheet σ) : Prop :=
  ∀ entry ∈ sheet.entries, entry.2.Stepless

instance {σ : Type} (sheet : Sheet σ) : Decidable (Sheet.Stepless sheet) :=
  inferInstanceAs (Decidable (∀ entry ∈ sheet.entries, entry.2.Stepless))

theorem Sheet.Stepless.of_find? {σ : Type} {sheet : Sheet σ} (h : Sheet.Stepless sheet)
    {type : String} {rule : Rule σ} (hrule : sheet.find? type = some rule) : rule.Stepless :=
  h _ (Table.mem_entries_iff.mpr hrule)

theorem Rule.respects_true {σ : Type} (rule : Rule σ) : rule.Respects fun _ => True := by
  intro entry _
  cases entry.2 with
  | rename target => trivial
  | fanOut targets => trivial
  | computed converters =>
    intro converter _
    cases converter.2 <;> simp [Converter.Respects]

theorem Sheet.Stepless.tame {σ : Type} {sheet : Sheet σ} (h : Sheet.Stepless sheet) :
    ∀ entry ∈ sheet.entries, Migrator.Tame (fun _ _ _ => True) entry.2 := fun entry he =>
  ⟨(h entry he).before, (h entry he).after, fun _ _ => entry.2.respects_true⟩

theorem Mapping.changesOnly_mapAttributes (rule : Rule LiveScene) (old new : NodeId)
    (live : LiveScene) :
    ∃ scene, (mapAttributes LiveScene.host rule old new live).2 = { live with scene } ∧
      live.scene.ChangesOnly new scene := by
  let I : LiveScene → Prop := fun later =>
    ∃ scene, later = { live with scene } ∧ live.scene.ChangesOnly new scene
  have hedit : ∀ {later : LiveScene} (f : Scene → Except HostError Scene), I later →
      (∀ scene scene', f scene = .ok scene' → scene.ChangesOnly new scene') →
        I (LiveScene.edit () f later).2 := by
    intro later f h hf
    rcases LiveScene.edit_cases () f later with ⟨scene', hok, heq⟩ | ⟨cause, _, heq⟩
    · obtain ⟨scene, rfl, hscene⟩ := h
      rw [heq]
      exact ⟨scene', rfl, hscene.trans (hf scene scene' hok)⟩
    · rw [heq]
      exact h
  have hkeeps : Mapping.Keeps LiveScene.host old new I fun _ => True := by
    refine ⟨fun _ _ => trivial, fun _ _ => trivial, fun _ _ _ _ => trivial, ?_, ?_⟩
    · exact fun plug attr h _ => hedit _ h fun scene scene' hok =>
        .of_rewrites (Scene.rewrites_of_connect hok)
    · exact fun attr value h _ => hedit _ h fun scene scene' hok =>
        .of_rewrites (Scene.rewrites_of_set hok)
  exact hkeeps.mapAttributes rule.respects_true ⟨live.scene, rfl, .refl _ _⟩

namespace Namer

theorem mem_takenNames_iff {scene : Scene} {skipped : NodeId} {name : String} :
    name ∈ takenNames scene.reads skipped ↔ ∃ id, id ≠ skipped ∧ scene.name? id = some name := by
  have hread : ∀ id, (scene.reads.nodeName id).toOption = scene.name? id := by
    intro id
    simp only [Scene.reads, Scene.node, Scene.name?]
    cases scene.nodes.find? id <;> simp [Except.map, Except.toOption]
  simp only [takenNames, List.mem_filterMap, List.mem_filter, hread, bne_iff_ne]
  constructor
  · intro h
    obtain ⟨id, ⟨_, hne⟩, hname⟩ := h
    exact ⟨id, hne, hname⟩
  · intro h
    obtain ⟨id, hne, hname⟩ := h
    exact ⟨id, ⟨Scene.mem_keys_of_name? hname, hne⟩, hname⟩

/-- The names that a claim must avoid under a policy. -/
def avoided (policy : NamingPolicy) (reads : Reads) (new : NodeId) : List String :=
  match policy with
  | .unique => takenNames reads new
  | .verbatim => []

theorem label_eq (live : LiveScene) {old new : NodeId} {replaced made : SceneNode}
    (hold : live.scene.nodes.find? old = some replaced)
    (hnew : live.scene.nodes.find? new = some made) (namer : Namer) (token : String) :
    ∃ scene,
      live.scene.rename new (namer.claim (deriveName replaced.name replaced.type token)
        replaced.name (avoided namer.policy live.scene.reads new)).1 = .ok scene ∧
      namer.label LiveScene.host old new token live =
        (.ok (namer.claim (deriveName replaced.name replaced.type token) replaced.name
            (avoided namer.policy live.scene.reads new)).1,
          (namer.claim (deriveName replaced.name replaced.type token) replaced.name
            (avoided namer.policy live.scene.reads new)).2, { live with scene }) := by
  have hpropose : namer.propose (LiveScene.host.reads live) old new token =
      .ok (namer.claim (deriveName replaced.name replaced.type token) replaced.name
        (avoided namer.policy live.scene.reads new)) := by
    have hnode : live.scene.node old = .ok replaced := Scene.node_eq_ok_iff.mpr hold
    have hname : live.scene.reads.nodeName old = .ok replaced.name := by
      simp only [Scene.reads, hnode, Except.map]
    have htype : live.scene.reads.nodeType old = .ok replaced.type := by
      simp only [Scene.reads, hnode, Except.map]
    have hreads : LiveScene.host.reads live = live.scene.reads := rfl
    unfold propose
    rw [hreads, hname, htype]
    rfl
  generalize namer.claim (deriveName replaced.name replaced.type token) replaced.name
    (avoided namer.policy live.scene.reads new) = claimed at hpropose ⊢
  have hrename := Scene.rename_eq_ok_iff.mpr
    ⟨Table.mem_keys_iff.mpr ⟨made, hnew⟩, (rfl : _ = { live.scene with
      nodes := live.scene.nodes.modify new fun found => { found with name := claimed.1 } })⟩
  refine ⟨_, hrename, ?_⟩
  unfold label
  rw [hpropose]
  dsimp only
  have hedit : LiveScene.host.rename new claimed.1 live = (.ok claimed.1, { live with
      scene := { live.scene with
        nodes := live.scene.nodes.modify new fun found =>
          { found with name := claimed.1 } } }) := by
    simp only [LiveScene.host, LiveScene.edit, hrename]
  rw [hedit]

/-- A name was issued for a node: under the unique policy no other node has it. -/
structure Issues (name : String) (scene : Scene) (new : NodeId) (before after : Namer) : Prop where
  policy : after.policy = before.policy
  issued : ∀ other ∈ after.issued, other = name ∨ other ∈ before.issued
  apart : before.policy = .unique → ∀ id, id ≠ new → scene.name? id ≠ some name

theorem issues_claim (namer : Namer) (scene : Scene) (new : NodeId) (candidate oldName : String) :
    Issues (namer.claim candidate oldName (avoided namer.policy scene.reads new)).1 scene new namer
      (namer.claim candidate oldName (avoided namer.policy scene.reads new)).2 := by
  unfold claim
  cases hpolicy : namer.policy with
  | verbatim =>
    exact ⟨rfl, fun other h => Or.inr h, fun h => absurd (hpolicy.symm.trans h) (by simp)⟩
  | unique =>
    refine ⟨hpolicy.symm, fun other h => by simpa using h, ?_⟩
    intro _ id hne hname
    refine freeName_not_mem (oldName :: namer.issued ++ avoided .unique scene.reads new)
      candidate ?_
    exact List.mem_append_right _ (mem_takenNames_iff.mpr ⟨id, hne, hname⟩)

end Namer

namespace Migrator

/-- What the conversion of a node does by a rule, with the outcome that it reports. -/
inductive Effect (rule : Rule LiveScene) (old : NodeId) (before : Run LiveScene) :
    Outcome → Run LiveScene → Prop
  | passthrough (htarget : rule.target = none) (hplace : rule.inPlace = false) :
      Effect rule old before .passthrough before
  | inPlace {scene : Scene} (htarget : rule.target = none) (hplace : rule.inPlace = true)
      (hchanges : before.state.scene.ChangesOnly old scene) :
      Effect rule old before .inPlace { before with state := { before.state with scene } }
  | failed {target : String} (htarget : rule.target = some target)
      (hschema : before.state.scene.schemas.contains target = false) :
      Effect rule old before (.failed (.creation target)) before
  | converted {target name : String} {namer : Namer} {scene : Scene}
      (htarget : rule.target = some target)
      (hschema : before.state.scene.schemas.contains target = true)
      (hadds : before.state.scene.Adds before.state.supply.next target name scene)
      (hissues : Namer.Issues name before.state.scene before.state.supply.next before.namer namer) :
      Effect rule old before (.converted before.state.supply.next)
        ⟨namer, ⟨scene, before.state.supply.rest⟩⟩

variable {migrator : Migrator LiveScene} (hhost : migrator.host = LiveScene.host)
  {rule : Rule LiveScene} (hrule : rule.Stepless) {old : NodeId} {found : SceneNode}
  {run : Run LiveScene} (hfound : run.state.scene.nodes.find? old = some found)
include hhost hrule

theorem keepNode_effect (htarget : rule.target = none) :
    Effect rule old run (migrator.keepNode rule old run.state).1.outcome
      { run with state := (migrator.keepNode rule old run.state).2 } := by
  rw [keepNode_eq migrator hrule.after, hhost]
  cases hplace : rule.inPlace with
  | false => exact .passthrough htarget hplace
  | true =>
    obtain ⟨scene, heq, hchanges⟩ :=
      Mapping.changesOnly_mapAttributes rule old old run.state
    simp only [if_true, heq]
    exact .inPlace htarget hplace hchanges

include hfound

theorem replaceNode_effect {target : String} (htarget : rule.target = some target) :
    Effect rule old run (migrator.replaceNode rule target old run).1.outcome
      (migrator.replaceNode rule target old run).2 := by
  have hcreate : migrator.host.create target rule.secondary run.state =
      LiveScene.create target rule.secondary run.state := by rw [hhost]; rfl
  unfold replaceNode
  rw [hcreate, LiveScene.create_eq]
  cases hschema : run.state.scene.schemas.contains target with
  | false => exact .failed htarget hschema
  | true =>
    simp only [if_true]
    generalize hadded : run.state.scene.addNode run.state.supply.next target
      (target ++ toString ((run.state.scene.nodesOfType target).length + 1)) rule.secondary = added
    have hadds := Scene.Adds.of_addNode run.state.scene run.state.supply.next target
      (target ++ toString ((run.state.scene.nodesOfType target).length + 1)) rule.secondary
    rw [hadded] at hadds
    -- the old node is there still, or its id went to the new one
    obtain ⟨made, hmade, _⟩ := hadds.node
    obtain ⟨replaced, hreplaced⟩ : ∃ replaced, added.nodes.find? old = some replaced := by
      by_cases hold : old = run.state.supply.next
      · exact ⟨made, hold ▸ hmade⟩
      · exact ⟨found, (hadds.others old hold).trans hfound⟩
    obtain ⟨refused, hfill⟩ := fillReplacement_eq migrator hrule.after
      (rule.nameToken.getD target) old run.state.supply.next
      { run with state := ⟨added, run.state.supply.rest⟩ }
    obtain ⟨named, hrename, hlabel⟩ := Namer.label_eq ⟨added, run.state.supply.rest⟩ hreplaced
      hmade run.namer (rule.nameToken.getD target)
    obtain ⟨mapped, hmap, hchanges⟩ := Mapping.changesOnly_mapAttributes rule old
      run.state.supply.next ⟨named, run.state.supply.rest⟩
    have hissues := Namer.issues_claim run.namer added run.state.supply.next
      (deriveName replaced.name replaced.type (rule.nameToken.getD target)) replaced.name
    rw [hfill]
    simp only [hhost, hlabel, hmap]
    refine .converted htarget hschema ((hadds.of_rename hrename).of_changesOnly hchanges) ?_
    refine ⟨hissues.policy, hissues.issued, fun hpolicy id hne hname => ?_⟩
    exact hissues.apart hpolicy id hne ((hadds.name?_of_ne hne).trans hname)

theorem applyRule_effect :
    Effect rule old run (migrator.applyRule rule old run).1.outcome
      (migrator.applyRule rule old run).2 := by
  rw [applyRule_eq migrator hrule.before]
  cases htarget : rule.target with
  | none => exact keepNode_effect hhost hrule htarget
  | some target => exact replaceNode_effect hhost hrule hfound htarget

end Migrator

def Outcome.made {σ : Type} (rule : Rule σ) : Outcome → List (NodeId × String)
  | .converted new => rule.target.toList.map fun target => (new, target)
  | _ => []

theorem Outcome.made_converted {σ : Type} {rule : Rule σ} {target : String}
    (h : rule.target = some target) (new : NodeId) :
    (Outcome.converted new).made rule = [(new, target)] := by
  simp [Outcome.made, h]

def Outcome.touched (old : NodeId) : Outcome → List NodeId
  | .inPlace => [old]
  | _ => []

theorem Outcome.eq_of_mem_touched {outcome : Outcome} {old id : NodeId}
    (h : id ∈ outcome.touched old) : id = old := by
  cases outcome with
  | inPlace => exact List.mem_singleton.mp h
  | skipped | passthrough | converted new | failed cause => exact absurd h List.not_mem_nil

/-- The outcomes that a rule leads to where the schemas are declared. -/
def Outcome.Fits {σ : Type} (rule : Rule σ) (schemas : Table String Schema) : Outcome → Prop
  | .skipped => False
  | .passthrough => rule.target = none ∧ rule.inPlace = false
  | .inPlace => rule.target = none ∧ rule.inPlace = true
  | .converted _ => ∃ target, rule.target = some target ∧ schemas.contains target = true
  | .failed cause => ∃ target, rule.target = some target ∧
      schemas.contains target = false ∧ cause = .creation target

namespace Migrator

theorem convertNode_of_rule {σ : Type} (migrator : Migrator σ) {rule : Rule σ} {old : NodeId}
    {run : Run σ} {type : String}
    (htype : (migrator.host.reads run.state).nodeType old = .ok type)
    (hrule : migrator.sheet.find? type = some rule) (inline : Bool) :
    migrator.convertNode inline old run =
      let textures := if inline then
        migrator.textureFailures rule (migrator.host.reads run.state) old else []
      let applied := migrator.applyRule rule old run
      ({ applied.1 with hookFailures := textures ++ applied.1.hookFailures }, applied.2) := by
  unfold convertNode
  simp only [htype, hrule]
  rfl

theorem nodeType_eq {migrator : Migrator LiveScene} (hhost : migrator.host = LiveScene.host)
    {old : NodeId} {found : SceneNode} {live : LiveScene}
    (hfound : live.scene.nodes.find? old = some found) :
    (migrator.host.reads live).nodeType old = .ok found.type := by
  have hnode : live.scene.node old = .ok found := Scene.node_eq_ok_iff.mpr hfound
  rw [hhost]
  exact congrArg (Except.map SceneNode.type) hnode

theorem convertNode_effect {migrator : Migrator LiveScene}
    (hhost : migrator.host = LiveScene.host) (hsheet : Sheet.Stepless migrator.sheet)
    {rule : Rule LiveScene} {old : NodeId} {found : SceneNode} {run : Run LiveScene}
    (hfound : run.state.scene.nodes.find? old = some found)
    (hrule : migrator.sheet.find? found.type = some rule) (inline : Bool) :
    Effect rule old run (migrator.convertNode inline old run).1.outcome
      (migrator.convertNode inline old run).2 := by
  rw [convertNode_of_rule migrator (nodeType_eq hhost hfound) hrule]
  exact applyRule_effect hhost (hsheet.of_find? hrule) hfound

/-- A node that is not there or has no rule makes no difference; any other has the effect of its
rule. -/
theorem convertNode_unchanged_or_effect {migrator : Migrator LiveScene}
    (hhost : migrator.host = LiveScene.host) (hsheet : Sheet.Stepless migrator.sheet)
    (inline : Bool) (old : NodeId) (run : Run LiveScene) :
    ((migrator.convertNode inline old run).1.replacement? = none ∧
        (migrator.convertNode inline old run).2 = run) ∨
      ∃ rule, Effect rule old run (migrator.convertNode inline old run).1.outcome
        (migrator.convertNode inline old run).2 := by
  rcases convertNode_cases migrator inline old run with
    ⟨cause, heq⟩ | heq | ⟨type, rule, failures, htype, hrule, _⟩
  · rw [heq]
    exact Or.inl ⟨rfl, rfl⟩
  · rw [heq]
    exact Or.inl ⟨rfl, rfl⟩
  · obtain ⟨found, hfound, rfl⟩ : ∃ found, run.state.scene.nodes.find? old = some found ∧
        found.type = type := by
      rw [hhost] at htype
      obtain ⟨found, hnode, htype⟩ := except_map_eq_ok_iff.mp htype
      exact ⟨found, Scene.node_eq_ok_iff.mp hnode, htype⟩
    exact Or.inr ⟨rule, convertNode_effect hhost hsheet hfound hrule inline⟩

/-- A conversion that fails changes nothing, not even the names on record. -/
theorem convertNode_failed {migrator : Migrator LiveScene} (hhost : migrator.host = LiveScene.host)
    (hsheet : Sheet.Stepless migrator.sheet) {inline : Bool} {old : NodeId} {run : Run LiveScene}
    (hfailed : (migrator.convertNode inline old run).1.isFailed = true) :
    (migrator.convertNode inline old run).2 = run := by
  rcases convertNode_unchanged_or_effect hhost hsheet inline old run with ⟨_, heq⟩ | ⟨rule, heffect⟩
  · exact heq
  · unfold NodeConversion.isFailed at hfailed
    cases houtcome : (migrator.convertNode inline old run).1.outcome with
    | failed cause =>
      rw [houtcome] at heffect
      generalize (migrator.convertNode inline old run).2 = later at heffect ⊢
      cases heffect
      rfl
    | skipped | passthrough | inPlace | converted new => simp [houtcome] at hfailed

namespace Effect

variable {rule : Rule LiveScene} {old : NodeId} {run run' : Run LiveScene} {outcome : Outcome}
  (h : Effect rule old run outcome run')
include h

theorem fits : outcome.Fits rule run.state.scene.schemas := by
  cases h with
  | passthrough htarget hplace => exact ⟨htarget, hplace⟩
  | inPlace htarget hplace _ => exact ⟨htarget, hplace⟩
  | failed htarget hschema => exact ⟨_, htarget, hschema, rfl⟩
  | converted htarget hschema _ _ => exact ⟨_, htarget, hschema⟩

theorem extension (hunused : run.state.NextUnused (outcome.made rule).length) :
    run.state.Extends (outcome.touched old) (outcome.made rule) run'.state := by
  cases h with
  | passthrough => exact .refl _
  | failed => exact .refl _
  | inPlace _ _ hchanges => exact .of_changesOnly hchanges
  | converted htarget _ hadds _ =>
    rw [Outcome.made_converted htarget] at hunused ⊢
    exact .of_adds hadds hunused.next_not_mem

end Effect

end Migrator

end ShaderMigration
