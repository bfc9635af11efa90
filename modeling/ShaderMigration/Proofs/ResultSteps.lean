import ShaderMigration.Proofs.ConversionTurns
import ShaderMigration.Proofs.MappingTargets

namespace ShaderMigration

def Rule.withoutAfter {σ : Type} (rule : Rule σ) : Rule σ := { rule with after := none }

/-- Nothing runs before, and what runs last writes to the result of the conversion only. -/
structure Rule.WritesResult (rule : Rule LiveScene) : Prop where
  before : rule.before = none
  after : ∀ step ∈ rule.after, ∀ old new (live : LiveScene),
    live.WritesBeside new [] (step LiveScene.host old new live).2

theorem Rule.WritesResult.of_stepless {rule : Rule LiveScene} (h : rule.Stepless) :
    rule.WritesResult :=
  ⟨h.before, fun step hstep => by simp [h.after] at hstep⟩

namespace Migrator

variable {σ : Type}

/-- Runs the last step of a rule on the result of a conversion, if there is one. -/
def finish (migrator : Migrator σ) (rule : Rule σ) (conversion : NodeConversion) (run : Run σ) :
    Run σ :=
  match conversion.result? with
  | none => run
  | some new => { run with state := (migrator.runAfter rule conversion.old new run.state).2 }

variable (migrator : Migrator σ) (rule : Rule σ) (old : NodeId)

theorem keepNode_finish (run : Run σ) :
    (migrator.keepNode rule old run.state).1.outcome =
        (migrator.keepNode rule.withoutAfter old run.state).1.outcome ∧
      { run with state := (migrator.keepNode rule old run.state).2 } =
        migrator.finish rule (migrator.keepNode rule.withoutAfter old run.state).1
          { run with state := (migrator.keepNode rule.withoutAfter old run.state).2 } := by
  have hafter : rule.withoutAfter.after = none := rfl
  rw [keepNode_eq migrator hafter]
  unfold keepNode
  have hplace : rule.withoutAfter.inPlace = rule.inPlace := rfl
  rw [hplace]
  cases rule.inPlace with
  | false => exact ⟨rfl, rfl⟩
  | true => exact ⟨rfl, rfl⟩

theorem fillReplacement_finish (token : String) (new : NodeId) (run : Run σ) :
    (migrator.fillReplacement rule token old new run).1.outcome =
        (migrator.fillReplacement rule.withoutAfter token old new run).1.outcome ∧
      (migrator.fillReplacement rule token old new run).2 =
        migrator.finish rule (migrator.fillReplacement rule.withoutAfter token old new run).1
          (migrator.fillReplacement rule.withoutAfter token old new run).2 := ⟨rfl, rfl⟩

theorem replaceNode_finish (target : String) (run : Run σ) :
    (migrator.replaceNode rule target old run).1.outcome =
        (migrator.replaceNode rule.withoutAfter target old run).1.outcome ∧
      (migrator.replaceNode rule target old run).2 =
        migrator.finish rule (migrator.replaceNode rule.withoutAfter target old run).1
          (migrator.replaceNode rule.withoutAfter target old run).2 := by
  unfold replaceNode
  have hsecondary : rule.withoutAfter.secondary = rule.secondary := rfl
  rw [hsecondary]
  rcases migrator.host.create target rule.secondary run.state with ⟨result, state⟩
  cases result with
  | error cause => exact ⟨rfl, rfl⟩
  | ok new => exact migrator.fillReplacement_finish rule old _ new _

/-- A conversion is that by the rule without its last step, and then the step. -/
theorem applyRule_finish (hbefore : rule.before = none) (run : Run σ) :
    (migrator.applyRule rule old run).1.outcome =
        (migrator.applyRule rule.withoutAfter old run).1.outcome ∧
      (migrator.applyRule rule old run).2 =
        migrator.finish rule (migrator.applyRule rule.withoutAfter old run).1
          (migrator.applyRule rule.withoutAfter old run).2 := by
  have hplain : rule.withoutAfter.before = none := hbefore
  have htarget : rule.withoutAfter.target = rule.target := rfl
  rw [applyRule_eq migrator hbefore, applyRule_eq migrator hplain, htarget]
  cases rule.target with
  | none => exact migrator.keepNode_finish rule old run
  | some target => exact migrator.replaceNode_finish rule old target run

theorem old_applyRule {rule : Rule σ} (hrule : rule.Stepless) (run : Run σ) :
    (migrator.applyRule rule old run).1.old = old := by
  rw [applyRule_eq migrator hrule.before]
  cases rule.target with
  | none => exact (old_keepNode migrator hrule.after old run.state).1
  | some target => exact old_replaceNode rule target old run

end Migrator

/-- What a node resulted in is the node itself or was made for it. -/
theorem NodeConversion.result?_cases {rule : Rule LiveScene} {schemas : Table String Schema}
    {conversion : NodeConversion} {new : NodeId} (hfits : conversion.outcome.Fits rule schemas)
    (hresult : conversion.result? = some new) :
    new = conversion.old ∨ new ∈ (conversion.outcome.made rule).map Prod.fst := by
  unfold result? at hresult
  cases houtcome : conversion.outcome with
  | skipped | passthrough | inPlace =>
    rw [houtcome] at hresult
    exact Or.inl (Option.some.inj hresult).symm
  | failed cause =>
    rw [houtcome] at hresult
    cases hresult
  | converted made =>
    rw [houtcome] at hresult hfits
    obtain ⟨target, htarget, _⟩ := hfits
    obtain rfl := Option.some.inj hresult
    exact Or.inr (by simp [Outcome.made_converted htarget])

namespace Migrator

variable {migrator : Migrator LiveScene} (hhost : migrator.host = LiveScene.host)
include hhost

theorem writesBeside_runAfter {rule : Rule LiveScene} (hrule : rule.WritesResult)
    (old new : NodeId) (live : LiveScene) :
    live.WritesBeside new [] (migrator.runAfter rule old new live).2 := by
  unfold runAfter
  cases hafter : rule.after with
  | none => exact .refl new [] live
  | some step =>
    rw [hhost]
    exact hrule.after step hafter old new live

theorem applyRule_extends {rule : Rule LiveScene} (hrule : rule.WritesResult) {old : NodeId}
    {found : SceneNode} {run : Run LiveScene}
    (hfound : run.state.scene.nodes.find? old = some found)
    (hunused : run.state.NextUnused
      (migrator.applyRule rule old run).1.replacement?.toList.length) :
    ∃ made, made.length = (migrator.applyRule rule old run).1.replacement?.toList.length ∧
      run.state.Extends [old] made (migrator.applyRule rule old run).2.state := by
  have hplain : rule.withoutAfter.Stepless := ⟨hrule.before, rfl⟩
  have heffect := applyRule_effect hhost hplain hfound
  obtain ⟨houtcome, hrun⟩ := migrator.applyRule_finish rule old hrule.before run
  have hold := migrator.old_applyRule old hplain run
  rw [hrun]
  generalize migrator.applyRule rule.withoutAfter old run = plain at heffect houtcome hold ⊢
  have hlength : (plain.1.outcome.made rule.withoutAfter).length =
      (migrator.applyRule rule old run).1.replacement?.toList.length := by
    rw [NodeConversion.length_made heffect.fits]
    unfold NodeConversion.replacement?
    rw [houtcome]
    cases plain.1.outcome <;> rfl
  refine ⟨plain.1.outcome.made rule.withoutAfter, hlength, ?_⟩
  have hextends := heffect.extension (hlength ▸ hunused)
  have htouched : ∀ id ∈ plain.1.outcome.touched old, id ∈ [old] := fun id hid =>
    List.mem_singleton.mpr (Outcome.eq_of_mem_touched hid)
  unfold finish
  cases hresult : plain.1.result? with
  | none => exact hextends.mono fun id _ hid => htouched id hid
  | some new =>
    obtain ⟨scene, hstate, hspares⟩ :=
      writesBeside_runAfter hhost hrule plain.1.old new plain.2.state
    have hboth := hextends.trans (.of_changesOnly hspares.changes)
    rw [List.append_nil, ← hstate] at hboth
    refine hboth.mono fun id hid hm => ?_
    rcases List.mem_append.mp hm with hm | hm
    · exact htouched id hm
    · obtain rfl := List.mem_singleton.mp hm
      rcases NodeConversion.result?_cases heffect.fits hresult with heq | hmade
      · exact List.mem_singleton.mpr (heq.trans hold)
      · exact absurd hmade (hextends.not_mem_made hid)

/-- The conversion of a node extends the scene, and of the nodes from before it touches no other. -/
theorem convertNode_extends
    (hsheet : ∀ entry ∈ migrator.sheet.entries, entry.2.WritesResult) (inline : Bool)
    (old : NodeId) {run : Run LiveScene}
    (hunused : run.state.NextUnused
      (migrator.convertNode inline old run).1.replacement?.toList.length) :
    ∃ made, made.length = (migrator.convertNode inline old run).1.replacement?.toList.length ∧
      run.state.Extends [old] made (migrator.convertNode inline old run).2.state := by
  rcases convertNode_cases migrator inline old run with
    ⟨cause, heq⟩ | heq | ⟨type, rule, failures, htype, hrule, heq⟩
  · rw [heq]
    exact ⟨[], rfl, (LiveScene.Extends.refl run.state).mono (by simp)⟩
  · rw [heq]
    exact ⟨[], rfl, (LiveScene.Extends.refl run.state).mono (by simp)⟩
  · rw [heq] at hunused ⊢
    rw [hhost] at htype
    obtain ⟨found, hnode, _⟩ := except_map_eq_ok_iff.mp htype
    exact applyRule_extends hhost (hsheet _ (Table.mem_entries_iff.mpr hrule))
      (Scene.node_eq_ok_iff.mp hnode) hunused

end Migrator

end ShaderMigration
