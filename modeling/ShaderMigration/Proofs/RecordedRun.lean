import ShaderMigration.Proofs.CleanupInvariant
import ShaderMigration.Proofs.HostProjection

namespace ShaderMigration

variable {σ : Type}

/-- A state, and those that it replaced one after the other, the latest first. -/
structure Recorded (σ : Type) where
  state : σ
  past : List σ := []

namespace Recorded

def visited (r : Recorded σ) : List σ := r.state :: r.past

/-- Does the same and puts the state from before on record. -/
def record {α : Type} (act : σ → α × σ) (r : Recorded σ) : α × Recorded σ :=
  ((act r.state).1, ⟨(act r.state).2, r.state :: r.past⟩)

/-- The state has one property and those on record another. -/
def Throughout (I P : σ → Prop) (r : Recorded σ) : Prop := I r.state ∧ ∀ s ∈ r.past, P s

theorem Throughout.record {I J P : σ → Prop} {α : Type} {act : σ → α × σ} {r : Recorded σ}
    (h : Throughout I P r) (hP : ∀ s, I s → P s) (hact : J (act r.state).2) :
    Throughout J P (record act r).2 := by
  refine ⟨hact, ?_⟩
  intro s hs
  rcases List.mem_cons.mp hs with rfl | hs
  · exact hP _ h.1
  · exact h.2 s hs

end Recorded

open Recorded (record Throughout)

/-- The host with its states on record. -/
def Host.recorded (host : Host σ) : Host (Recorded σ) where
  reads r := host.reads r.state
  rename node name := record (host.rename node name)
  create type secondary := record (host.create type secondary)
  set node attr value := record (host.set node attr value)
  connect plug node attr := record (host.connect plug node attr)
  setIndexed node attr index value := record (host.setIndexed node attr index value)
  setTag node key text := record (host.setTag node key text)

theorem Host.recorded_projects (host : Host σ) : host.recorded.Projects Recorded.state host where
  reads := fun _ => rfl
  rename := fun _ _ _ => rfl
  create := fun _ _ _ => rfl
  set := fun _ _ _ _ => rfl
  connect := fun _ _ _ _ => rfl
  setIndexed := fun _ _ _ _ _ => rfl

theorem Mapping.Keeps.recorded {host : Host σ} {old new : NodeId} {I P : σ → Prop}
    {A : Value → Prop} (k : Mapping.Keeps host old new I A) (hP : ∀ s, I s → P s) :
    Mapping.Keeps host.recorded old new (Throughout I P) A where
  get := fun h hget => k.get h.1 hget
  getStatic := fun h hget => k.getStatic h.1 hget
  connections := fun h hplugs => k.connections h.1 hplugs
  connect := fun plug attr h hplug => h.record hP (k.connect plug attr h.1 hplug)
  set := fun attr value h hvalue => h.record hP (k.set attr value h.1 hvalue)

theorem Migrator.Keeps.recorded {host : Host σ} {I P : List Replacement → σ → Prop}
    {A : List Replacement → NodeId → Value → Prop} (k : Migrator.Keeps host I A)
    (hP : ∀ pairs s, I pairs s → P pairs s)
    (hlater : ∀ pairs pair s, P pairs s → P (pairs ++ [pair]) s) :
    Migrator.Keeps host.recorded (fun pairs => Throughout (I pairs) (P pairs)) A where
  onto := fun pairs old => (k.onto pairs old).recorded (hP pairs)
  fill := fun {pairs} _ _ hp => (k.fill hp).recorded (hP pairs)
  rename := fun node name h => h.record (hP _) (k.rename node name h.1)
  create := by
    intro pairs r old type target secondary new r' h htype hcreate
    obtain ⟨hnew, rfl⟩ := Prod.mk.inj hcreate
    have hkeep := k.create h.1 htype (Prod.ext hnew rfl)
    refine ⟨hkeep, fun s hs => hlater _ _ _ ?_⟩
    exact (h.record (hP pairs) hkeep).2 s hs
  refuse := by
    intro pairs r target secondary cause r' h hcreate
    obtain ⟨hcause, rfl⟩ := Prod.mk.inj hcreate
    exact h.record (hP pairs) (k.refuse h.1 (Prod.ext hcause rfl))

theorem Cleanup.Keeps.recorded {host : Host σ} {pairs : List Replacement} {I P : σ → Prop}
    {C : Replacement → Consumer → Prop} (k : Cleanup.Keeps host pairs I C)
    (hP : ∀ s, I s → P s) : Cleanup.Keeps host.recorded pairs (Throughout I P) C where
  ends := fun h => k.ends h.1
  found := fun h => k.found h.1
  repoint := by
    intro r pair consumer h hpair hc
    have hrepoint : Cleanup.repoint host.recorded consumer pair.new r =
        record (Cleanup.repoint host consumer pair.new) r := by
      unfold Cleanup.repoint
      cases consumer.index <;> rfl
    rw [hrepoint]
    exact h.record hP (k.repoint h.1 hpair hc)

theorem Rule.PlugFree.withoutSteps {τ : Type} {rule : Rule σ} (h : rule.PlugFree) :
    (rule.withoutSteps : Rule τ).PlugFree := ⟨rfl, rfl, h.attributes⟩

theorem Sheet.PlugFree.withoutSteps {τ : Type} {sheet : Sheet σ} (h : Sheet.PlugFree sheet) :
    Sheet.PlugFree (Sheet.withoutSteps sheet : Sheet τ) := by
  intro entry he
  obtain ⟨known, hknown, rfl⟩ := List.mem_map.mp he
  exact (h known hknown).withoutSteps

/-- By rules without steps the recorded conversion is the plain one with the states on record. -/
theorem Migrator.autoConvert_recorded {migrator : Migrator σ}
    (hsteps : ∀ entry ∈ migrator.sheet.entries, entry.2.before = none ∧ entry.2.after = none)
    {run after : Run σ} {report : ConversionReport}
    (hrun : migrator.autoConvert run = (report, after)) :
    ∃ converted : Run (Recorded σ),
      (migrator.onHost migrator.host.recorded).autoConvert ⟨run.namer, ⟨run.state, []⟩⟩ =
        (report, converted) ∧ converted.map Recorded.state = after := by
  have htracks := tracks_autoConvert migrator.host.recorded_projects hsteps
    ⟨run.namer, ⟨run.state, []⟩⟩
  obtain ⟨hreport, hafter⟩ := Prod.mk.inj (hrun.symm.trans htracks)
  exact ⟨_, Prod.ext hreport.symm rfl, hafter.symm⟩

theorem Cleanup.cleanUp?_recorded {M : Type} [Memory M] {host : Host σ} {options : Options}
    {pairs : List Replacement} {r final : Recorded σ} {report : Report}
    (h : cleanUp? (M := M) host.recorded options pairs r = some (report, final)) :
    cleanUp? (M := M) host options pairs r.state = some (report, final.state) := by
  rw [cleanUp?_map host.recorded_projects, h, Option.map_some]

theorem acyclic_past_of_autoConvert {sheet : Sheet LiveScene} {workshop : Texture.Workshop}
    {run : Run LiveScene} {report : ConversionReport} {converted : Run (Recorded LiveScene)}
    (hsheet : Sheet.PlugFree sheet) (hkeyed : run.state.scene.Keyed)
    (hschemas : run.state.scene.SchemasPlugFree) (hacyclic : run.state.scene.Acyclic)
    (hfresh : run.state.NextFresh report.converted)
    (hrun : ((Migrator.inMemory sheet workshop).onHost LiveScene.host.recorded).autoConvert
      ⟨run.namer, ⟨run.state, []⟩⟩ = (report, converted)) :
    ∀ live ∈ converted.state.past, live.scene.Acyclic := by
  let P : List Replacement → LiveScene → Prop := fun pairs live =>
    pairs.length ≤ report.converted → live.scene.Acyclic
  have hkeeps : Migrator.Keeps LiveScene.host.recorded
      (fun pairs => Throughout
        (LineageUpTo run.state report.converted run.state.scene pairs) (P pairs))
      (Inherited run.state report.converted) := by
    refine (conversion_keeps_lineage hschemas hfresh).recorded ?_ ?_
    · exact fun pairs live h hle => (h.2 hle).1.acyclic hacyclic
    · intro pairs pair live hp hle
      rw [List.length_append] at hle
      exact hp (by omega)
  have hstart : Throughout (LineageUpTo run.state report.converted run.state.scene []) (P [])
      ⟨run.state, []⟩ := ⟨⟨rfl, fun _ => ⟨.refl hkeyed, .refl _⟩⟩, by simp⟩
  have hkeep := Migrator.keeps_autoConvert
    ((Migrator.inMemory sheet workshop).onHost LiveScene.host.recorded) hkeeps
    (hsheet.withoutSteps.tame run.state report.converted) ⟨run.namer, ⟨run.state, []⟩⟩ hstart
  rw [hrun] at hkeep
  intro live hlive
  exact hkeep.2 live hlive (Nat.le_of_eq (length_replacementsOf report))

/-- A migration runs through scenes without cycles only.  On record are all states of the conversion
and then of the cleanup, and the run on record is the plain one; so every walk in it ends. -/
theorem migration_keeps_acyclic {sheet : Sheet LiveScene} {workshop : Texture.Workshop}
    {run after : Run LiveScene} {report : ConversionReport} (hsheet : Sheet.PlugFree sheet)
    (hkeyed : run.state.scene.Keyed) (hschemas : run.state.scene.SchemasPlugFree)
    (hacyclic : run.state.scene.Acyclic)
    (hrun : (Migrator.inMemory sheet workshop).autoConvert run = (report, after))
    (hfresh : run.state.NextFresh report.converted) :
    ∃ (converted : Run (Recorded LiveScene)) (cleaned : Cleanup.Report)
        (final : Recorded LiveScene),
      ((Migrator.inMemory sheet workshop).onHost LiveScene.host.recorded).autoConvert
          ⟨run.namer, ⟨run.state, []⟩⟩ = (report, converted) ∧
        converted.map Recorded.state = after ∧
      cleanUp? LiveScene.host.recorded {} report.pairs converted.state = some (cleaned, final) ∧
        cleanUp? LiveScene.host {} report.pairs after.state = some (cleaned, final.state) ∧
      ∀ live ∈ final.visited, live.scene.Acyclic ∧
        ∀ root, (live.scene.reads.walk? root).isSome := by
  obtain ⟨hlineage, _⟩ := lineage_of_autoConvert hsheet hkeyed hschemas hrun hfresh
  have hsteps : ∀ entry ∈ sheet.entries, entry.2.before = none ∧ entry.2.after = none :=
    fun entry he => ⟨(hsheet entry he).before, (hsheet entry he).after⟩
  obtain ⟨converted, hconvert, hafter⟩ := Migrator.autoConvert_recorded hsteps hrun
  have hstate : converted.state.state = after.state := congrArg Run.state hafter
  have hpast := acyclic_past_of_autoConvert hsheet hkeyed hschemas hacyclic hfresh hconvert
  -- the cleanup keeps the lineage of the state, which excludes cycles from all that go on record
  have hkeeps : Cleanup.Keeps LiveScene.host.recorded (Cleanup.replaced report.pairs)
      (Throughout (fun live => Lineage run.state (Cleanup.replaced report.pairs) live.scene)
        fun live => live.scene.Acyclic) _ :=
    (Cleanup.cleanup_keeps_lineage hacyclic).recorded fun live h => h.acyclic hacyclic
  have hstart : Throughout
      (fun live => Lineage run.state (Cleanup.replaced report.pairs) live.scene)
      (fun live => live.scene.Acyclic) converted.state := ⟨hstate ▸ hlineage, hpast⟩
  obtain ⟨cleaned, final, hclean, hfinal⟩ := Cleanup.keeps_cleanUp? (M := Memo) hkeeps true hstart
  refine ⟨converted, cleaned, final, hconvert, hafter, hclean, ?_, ?_⟩
  · rw [← hstate]
    exact Cleanup.cleanUp?_recorded hclean
  · have hvisited : ∀ live ∈ final.visited, live.scene.Acyclic := by
      intro live hlive
      rcases List.mem_cons.mp hlive with rfl | hlive
      · exact hfinal.1.acyclic hacyclic
      · exact hfinal.2 live hlive
    exact fun live hlive => ⟨hvisited live hlive, (hvisited live hlive).isSome_walk?⟩

/-- The mesh's network has no cycle at any time while its shader is replaced twice. -/
theorem staged_keeps_acyclic :
    ∃ (converted : Run (Recorded LiveScene)) (cleaned : Cleanup.Report)
        (final : Recorded LiveScene),
      ((Migrator.inMemory phongByStages ⟨{}, {}, fun _ _ => .ok (.code 0)⟩).onHost
        LiveScene.host.recorded).autoConvert ⟨{}, ⟨twiceShaded, []⟩⟩ =
          (stagedRun.1, converted) ∧
      cleanUp? LiveScene.host.recorded {} stagedRun.1.pairs converted.state =
        some (cleaned, final) ∧
      ∀ live ∈ final.visited, live.scene.Acyclic := by
  obtain ⟨converted, cleaned, final, hconvert, _, hclean, _, hvisited⟩ := migration_keeps_acyclic
    phongByStages_plugFree (by decide) (by decide) twiceShaded_acyclic stagedRun_eq fresh_stagedRun
  exact ⟨converted, cleaned, final, hconvert, hclean, fun live hlive => (hvisited live hlive).1⟩

end ShaderMigration
