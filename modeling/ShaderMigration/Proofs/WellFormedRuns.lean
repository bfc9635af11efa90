import ShaderMigration.Proofs.BuildSteps
import ShaderMigration.Proofs.HostCalls
import ShaderMigration.Proofs.WellFormedScenes

namespace ShaderMigration

namespace LiveScene

/-- If the nodes made were fresh, the later scene is well formed and keeps what the earlier one
has. -/
def StaysWellFormed (before later : LiveScene) : Prop :=
  before.NextUnused (later.supply.drawn - before.supply.drawn) →
    later.scene.WellFormed ∧ before.scene.KeepsShapes later.scene

/-- What a call does to a well-formed scene, with an account of the ids that it draws. -/
structure Sound (before later : LiveScene) : Prop where
  extension : ∃ touched made, before.Extends touched made later
  wellFormed : later.scene.WellFormed
  shapes : before.scene.KeepsShapes later.scene

variable {live mid later : LiveScene}

theorem Extends.of_modify {node : NodeId} (f : SceneNode → SceneNode)
    (hf : ∀ found, (f found).id = found.id ∧ (f found).type = found.type ∧
      (f found).attributes = found.attributes) :
    live.Extends [node] []
      { live with scene := { live.scene with nodes := live.scene.nodes.modify node f } } := by
  refine ⟨rfl, rfl, rfl, rfl, by simp, ?_, ?_, by simp⟩
  · intro id _ hid
    rw [List.mem_singleton] at hid
    simp [Table.find?_modify, hid]
  · intro id found hfound
    by_cases hid : id = node
    · subst hid
      refine ⟨f found, by simp [Table.find?_modify, hfound], (hf found).1, (hf found).2.1, ?_⟩
      rw [(hf found).2.2]
    · exact ⟨found, by simp [Table.find?_modify, hid, hfound], rfl, rfl, rfl⟩

namespace Sound

theorem refl (h : live.scene.WellFormed) : live.Sound live :=
  ⟨⟨_, _, .refl live⟩, h, .refl live.scene⟩

theorem trans (h : live.Sound mid) (h' : mid.Sound later) : live.Sound later := by
  obtain ⟨_, _, hmid⟩ := h.extension
  obtain ⟨_, _, hlater⟩ := h'.extension
  exact ⟨⟨_, _, hmid.trans hlater⟩, h'.wellFormed, h.shapes.trans h'.shapes⟩

theorem of_edit {α : Type} {result : α} {f : Scene → Except HostError Scene}
    (h : live.scene.WellFormed)
    (hf : ∀ scene, f live.scene = .ok scene → live.Sound { live with scene }) :
    live.Sound (edit result f live).2 := by
  rcases edit_cases result f live with ⟨scene, hok, heq⟩ | ⟨cause, _, heq⟩
  · rw [heq]
    exact hf scene hok
  · rw [heq]
    exact .refl h

theorem of_write {scene : Scene} {node : NodeId} {attr : String} {offered : List Plug}
    (h : live.scene.WellFormed) (hr : live.scene.Rewrites scene node attr offered)
    (hs : live.scene.Refits scene node attr) : live.Sound { live with scene } :=
  ⟨⟨_, _, .of_changesOnly (.of_rewrites hr)⟩, h.of_rewrites hr, .of_refits hs⟩

/-- Renaming and tagging write to no slot. -/
theorem of_modify {node : NodeId} (h : live.scene.WellFormed) (f : SceneNode → SceneNode)
    (hf : ∀ found, (f found).id = found.id ∧ (f found).type = found.type ∧
      (f found).attributes = found.attributes) :
    live.Sound { live with scene := { live.scene with nodes := live.scene.nodes.modify node f } } := by
  refine ⟨⟨_, _, .of_modify f hf⟩, h.of_modify f fun found => ⟨(hf found).1, (hf found).2.2⟩, ?_⟩
  refine .of_modify f fun found _ => ⟨(hf found).2.1, ?_⟩
  unfold SceneNode.shapes
  rw [(hf found).2.2]

theorem of_create (h : live.scene.WellFormed) (type : String) (secondary : Option String)
    (hunused :
      live.NextUnused ((create type secondary live).2.supply.drawn - live.supply.drawn)) :
    live.Sound (create type secondary live).2 := by
  rw [create_eq] at hunused ⊢
  split
  next hschema =>
    have hnew : live.supply.next ∉ live.scene.nodes.keys := by
      refine hunused.absent 0 ?_
      simp [hschema, Supply.rest]
    exact ⟨⟨_, _, .of_adds (.of_addNode _ _ _ _ _) hnew⟩, h.of_addNode hnew _ _ _,
      .of_addNode hnew hschema _ _⟩
  next => exact .refl h

/-- One case for each call. -/
theorem of_call (h : live.scene.WellFormed) (call : HostCall)
    (hunused : live.NextUnused ((host.after live call).supply.drawn - live.supply.drawn)) :
    live.Sound (host.after live call) := by
  cases call with
  | rename node name =>
    refine of_edit h fun _ hok => ?_
    obtain ⟨_, rfl⟩ := Scene.rename_eq_ok_iff.mp hok
    exact of_modify h (fun found => { found with name }) fun _ => ⟨rfl, rfl, rfl⟩
  | create type secondary => exact of_create h type secondary hunused
  | set node attr value =>
    exact of_edit h fun _ hok =>
      of_write h (Scene.rewrites_of_set hok) (Scene.refits_of_set hok)
  | connect source node attr =>
    exact of_edit h fun _ hok =>
      of_write h (Scene.rewrites_of_connect hok) (Scene.refits_of_connect hok)
  | setIndexed node attr index value =>
    exact of_edit h fun _ hok =>
      of_write h (Scene.rewrites_of_setIndexed hok) (Scene.refits_of_setIndexed hok)
  | setTag node key text =>
    refine of_edit h fun _ hok => ?_
    obtain ⟨_, rfl⟩ := Scene.setTag_eq_ok_iff.mp hok
    exact of_modify h (fun found => { found with tags := found.tags.insert key text })
      fun _ => ⟨rfl, rfl, rfl⟩

end Sound

theorem supply_edit {α : Type} (result : α) (f : Scene → Except HostError Scene)
    (live : LiveScene) : (edit result f live).2.supply = live.supply := by
  unfold edit
  split
  next => rfl
  next => rfl

theorem drawn_le_after (live : LiveScene) (call : HostCall) :
    live.supply.drawn ≤ (host.after live call).supply.drawn := by
  have hedit : ∀ {α : Type} (result : α) (f : Scene → Except HostError Scene),
      live.supply.drawn ≤ (edit result f live).2.supply.drawn := fun result f =>
    Nat.le_of_eq (congrArg Supply.drawn (supply_edit result f live).symm)
  cases call with
  | create type secondary =>
    change _ ≤ (create type secondary live).2.supply.drawn
    rw [create_eq]
    split
    next => exact Nat.le_succ _
    next => exact Nat.le_refl _
  | rename | set | connect | setIndexed | setTag => exact hedit _ _

theorem drawn_le_afterAll (calls : List HostCall) (live : LiveScene) :
    live.supply.drawn ≤ (host.afterAll calls live).supply.drawn := by
  induction calls generalizing live with
  | nil => exact Nat.le_refl _
  | cons call rest ih => exact Nat.le_trans (drawn_le_after live call) (ih (host.after live call))

/-- The ids that the later calls draw are unused when their turn comes, since the earlier ones have
drawn others. -/
theorem sound_afterAll (calls : List HostCall) (h : live.scene.WellFormed)
    (hunused : live.NextUnused ((host.afterAll calls live).supply.drawn - live.supply.drawn)) :
    live.Sound (host.afterAll calls live) := by
  induction calls generalizing live with
  | nil => exact .refl h
  | cons call rest ih =>
    have hfirst := drawn_le_after live call
    have hrest := drawn_le_afterAll rest (host.after live call)
    have hlast : (host.afterAll (call :: rest) live).supply.drawn =
        (host.afterAll rest (host.after live call)).supply.drawn := rfl
    have hsound := Sound.of_call h call (hunused.mono (by omega))
    obtain ⟨touched, made, hextends⟩ := hsound.extension
    have hdrawn : (host.after live call).supply.drawn = live.supply.drawn + made.length := by
      rw [hextends.supply]
    exact hsound.trans (ih hsound.wellFormed (hextends.nextUnused (hunused.mono (by omega))))

theorem staysWellFormed_of_reaches (h : live.scene.WellFormed) (hreaches : host.Reaches live later) :
    live.StaysWellFormed later := by
  intro hunused
  obtain ⟨calls, rfl⟩ := hreaches
  have hsound := sound_afterAll calls h hunused
  exact ⟨hsound.wellFormed, hsound.shapes⟩

/-- Whatever the host is asked to do, by itself or in a conversion, a cleanup or a build, succeeding
or not: a well-formed scene stays so, and keeps its nodes and the shapes of their attributes. -/
theorem host_keeps_wellFormed {live : LiveScene} (h : live.scene.WellFormed) :
    (∀ calls : List HostCall, live.StaysWellFormed (host.afterAll calls live)) ∧
      (∀ (sheet : Sheet LiveScene) (workshop : Texture.Workshop) (namer : Namer),
        (∀ entry ∈ sheet.entries, entry.2.StepsByCalls host) →
          live.StaysWellFormed
            ((Migrator.inMemory sheet workshop).autoConvert ⟨namer, live⟩).2.state) ∧
      (∀ (M : Type) [Memory M] (options : Cleanup.Options) (pairs : List Replacement)
        (report : Cleanup.Report) (later : LiveScene),
          cleanUp? (M := M) host options pairs live = some (report, later) →
            live.StaysWellFormed later) ∧
      ∀ (tree : NodeTree) (options : BuildOptions),
        live.StaysWellFormed (tree.build host options live).2 := by
  refine ⟨?_, ?_, ?_, ?_⟩
  · exact fun calls => staysWellFormed_of_reaches h ⟨calls, rfl⟩
  · intro sheet workshop namer hsteps
    have hreaches : (Migrator.inMemory sheet workshop).host.Reaches live
        ((Migrator.inMemory sheet workshop).autoConvert ⟨namer, live⟩).2.state :=
      Migrator.reaches_autoConvert hsteps ⟨namer, live⟩
    exact staysWellFormed_of_reaches h hreaches
  · intro M _ options pairs report later hclean
    exact staysWellFormed_of_reaches h (Cleanup.reachesBy_cleanUp? hclean).reaches
  · exact fun tree options => staysWellFormed_of_reaches h (Build.reaches_build tree host options live)

/-- Calls for the mesh's network: some of them are refused, and one converts the value that it
stores. -/
def reworking : List HostCall :=
  [.create "blinn" none, .set (.ofNat 4) "color" (.int 3), .set (.ofNat 2) "color" (.string "red"),
    .connect ⟨.ofNat 4, some "out"⟩ (.ofNat 2) "matte",
    .setIndexed (.ofNat 1) "shaders" 1 (.array [.connection ⟨.ofNat 4, none⟩]),
    .setIndexed (.ofNat 1) "shaders" 0 (.connection ⟨.ofNat 9, none⟩), .rename (.ofNat 3) "bark",
    .create "file" none, .setTag (.ofNat 4) "ref_id" "leaf"]

/-- The reworked, the converted, the cleaned up and the added scenes are all well formed. -/
theorem twiceShaded_staysWellFormed :
    (host.afterAll reworking twiceShaded).scene.WellFormed ∧
      twiceShaded.scene.KeepsShapes (host.afterAll reworking twiceShaded).scene ∧
      stagedRun.2.state.scene.WellFormed ∧ twiceShaded.scene.KeepsShapes stagedRun.2.state.scene ∧
      (∃ report later, cleanUp? (M := Memo) host {} [⟨.ofNat 2, .ofNat 3⟩] twiceShaded =
        some (report, later) ∧ later.scene.WellFormed ∧
          twiceShaded.scene.KeepsShapes later.scene) ∧
      ((NodeTree.one (.ofType "blinn")).build host {} twiceShaded).2.scene.WellFormed := by
  have hwellFormed : twiceShaded.scene.WellFormed := by decide +kernel
  obtain ⟨hcalls, hconversions, hcleanups, hbuilds⟩ := host_keeps_wellFormed hwellFormed
  obtain ⟨hreworked, hshapes⟩ := hcalls reworking (by decide +kernel)
  have hsteps : Sheet.Stepless phongByStages := by decide
  obtain ⟨hconverted, hshapes'⟩ := hconversions phongByStages ⟨{}, {}, fun _ _ => .ok (.code 0)⟩ {}
    (fun entry he => (hsteps entry he).stepsByCalls host) (by decide +kernel)
  have hdrawn : (cleanUp? (M := Memo) host {} [⟨.ofNat 2, .ofNat 3⟩] twiceShaded).map
      (fun result => result.2.supply.drawn) = some 0 := by decide +kernel
  obtain ⟨⟨report, later⟩, hclean, hnone⟩ := Option.map_eq_some_iff.mp hdrawn
  have hunused : twiceShaded.NextUnused (later.supply.drawn - twiceShaded.supply.drawn) := by
    rw [show later.supply.drawn = 0 from hnone]
    decide
  exact ⟨hreworked, hshapes, hconverted, hshapes',
    ⟨report, later, hclean, hcleanups Memo {} _ _ _ hclean hunused⟩, (hbuilds _ {} (by decide +kernel)).1⟩

end LiveScene

end ShaderMigration
