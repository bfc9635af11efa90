import ShaderMigration.Proofs.ScriptFollows

namespace ShaderMigration.Build

/-- The moves of the descriptions at the top of a tree, from the first new node on. -/
def treeScript (options : BuildOptions) (roots : List NodeSpec) (live : LiveScene) : List Move :=
  NodeSpec.scriptRoots live.scene.schemas options.primaryInput 0 roots

section Tree

section Laid

variable (options : BuildOptions) (roots : List NodeSpec) (live : LiveScene)

theorem laid_treeScript : Laid live.scene.schemas options.primaryInput [] 0 []
    (roots.flatMap fun spec => spec.described live.scene.schemas)
    (treeScript options roots live) := laid_scriptRoots roots [] 0 rfl

theorem makes_treeScript : makes (treeScript options roots live) =
    roots.flatMap fun spec => spec.described live.scene.schemas :=
  (laid_treeScript options roots live).makes

end Laid

variable {options : BuildOptions} {roots : List NodeSpec} {live : LiveScene}

theorem movesAt_treeScript {place : Nat} {spec : NodeSpec}
    (h : (roots.flatMap fun spec => spec.described live.scene.schemas)[place]? = some spec) :
    movesAt place (treeScript options roots live) =
      spec.moves live.scene.schemas options.primaryInput place := by
  rw [(laid_treeScript ..).movesAt, ite_self, List.nil_append, List.length_nil, movesOf,
    if_pos (Nat.zero_le _), Nat.sub_zero, h]
  rfl

theorem asksAt_treeScript {place : Nat} {spec : NodeSpec}
    (h : (roots.flatMap fun spec => spec.described live.scene.schemas)[place]? = some spec) :
    asksAt place (treeScript options roots live) =
      spec.requests live.scene.schemas options.primaryInput place := by
  rw [← asksAt_movesAt, movesAt_treeScript h, asksAt_moves]

theorem exists_spec_of_mem_treeScript {place : Nat} {move : Move} (hplace : move.place? = some place)
    (h : move ∈ treeScript options roots live) :
    ∃ spec, (roots.flatMap fun spec => spec.described live.scene.schemas)[place]? = some spec ∧
      move ∈ spec.moves live.scene.schemas options.primaryInput place := by
  have hmove : move ∈ movesAt place (treeScript options roots live) :=
    List.mem_filter.mpr ⟨h, by simp [hplace]⟩
  cases hspec : (roots.flatMap fun spec => spec.described live.scene.schemas)[place]? with
  | some spec => exact ⟨spec, rfl, movesAt_treeScript hspec ▸ hmove⟩
  | none =>
    rw [(laid_treeScript ..).movesAt, ite_self, List.nil_append, List.length_nil, movesOf,
      if_pos (Nat.zero_le _), Nat.sub_zero, hspec] at hmove
    cases hmove

theorem mem_tag_treeScript_iff {place : Nat} {label : String} :
    .tag place label ∈ treeScript options roots live ↔ ∃ spec,
      (roots.flatMap fun spec => spec.described live.scene.schemas)[place]? = some spec ∧
        spec.tag = some label := by
  have hmoves : ∀ spec : NodeSpec, .tag place label ∈
      spec.moves live.scene.schemas options.primaryInput place ↔ spec.tag = some label := by
    intro spec
    simp [NodeSpec.moves]
  constructor
  · intro h
    obtain ⟨spec, hspec, hmove⟩ := exists_spec_of_mem_treeScript rfl h
    exact ⟨spec, hspec, (hmoves spec).mp hmove⟩
  · intro h
    obtain ⟨spec, hspec, htag⟩ := h
    have hmove := (hmoves spec).mpr htag
    rw [← movesAt_treeScript hspec] at hmove
    exact (List.mem_filter.mp hmove).1

theorem buildRoots_eq_runMoves
    (hunused : live.NextUnused
      (roots.flatMap fun spec => spec.described live.scene.schemas).length) :
    buildRoots LiveScene.host options roots { state := live } =
      runMoves options live.idAt (treeScript options roots live) { state := live } := by
  have hmakes := makes_treeScript options roots live
  have haligned : Aligned live.scene.schemas live.idAt 0
      (makes (treeScript options roots live)).length { state := live } :=
    ⟨rfl, fun i => by rw [Nat.zero_add]; rfl, hmakes.symm ▸ hunused⟩
  rw [follows_buildRoots roots 0 { state := live } haligned (by simp)]
  exact congrFun bind_pure_unit _

end Tree

section Stop

variable {options : BuildOptions} {ids : Nat → NodeId} {before after : Building LiveScene}
  {cause : HostError} {node : NodeId}

theorem bind_error_cases {σ α β : Type} {step : BuildStep σ α} {next : α → BuildStep σ β}
    {before after : Building σ} {cause : HostError}
    (h : (step >>= next) before = (.error cause, after)) :
    step before = (.error cause, after) ∨
      ∃ first mid, step before = (.ok first, mid) ∧ next first mid = (.error cause, after) := by
  have hbind : (step >>= next) before =
      ExceptT.bindCont next (step before).1 (step before).2 := rfl
  rw [hbind] at h
  cases hstep : step before with
  | mk answer mid =>
    rw [hstep] at h
    cases answer with
    | ok first => exact Or.inr ⟨first, mid, rfl, h⟩
    | error other =>
      obtain ⟨hcause, rfl⟩ := Prod.mk.inj h
      exact Or.inl (by rw [Except.error.inj hcause])

/-- The step never ends a build. -/
def Total (step : BuildStep LiveScene Unit) : Prop := ∀ before, ∃ after, step before = (.ok (), after)

theorem total_modify (f : Building LiveScene → Building LiveScene) :
    Total (modify f : BuildStep LiveScene Unit) := fun before => ⟨f before, rfl⟩

theorem total_attempt (node : NodeId) (key : String) (action : Action LiveScene Unit) :
    Total (attempt node key action) := by
  intro before
  unfold attempt
  split
  next state _ => exact ⟨_, rfl⟩
  next cause state _ => exact ⟨_, rfl⟩

theorem Total.bind {step step' : BuildStep LiveScene Unit} (h : Total step) (h' : Total step') :
    Total (do step; step') := by
  intro before
  obtain ⟨mid, hstep⟩ := h before
  obtain ⟨after, hstep'⟩ := h' mid
  exact ⟨after, bind_eq_ok_iff.mpr ⟨(), mid, hstep, hstep'⟩⟩

theorem total_wait (node : NodeId) (tag : String) : Total (wait options node tag) := by
  unfold wait leaveUnresolved
  split
  next => exact total_modify _
  next => exact total_modify _

theorem Order.total_run (node : NodeId) (order : Order) : Total (order.run node) := by
  cases order with
  | unlisted id => exact total_modify _
  | write key attr value => exact total_attempt _ _ _

theorem Request.total_run (node : NodeId) (request : Request) :
    Total (request.run options ids node) := by
  intro before
  unfold run
  split
  next order _ => exact order.total_run node before
  next =>
    cases request with
    | refer tag => exact total_wait node tag before
    | unlisted => exact ⟨before, rfl⟩
    | write => exact ⟨before, rfl⟩
    | link => exact ⟨before, rfl⟩

/-- Only a node of a type that is not declared ends a run, and it changes nothing. -/
theorem Move.run_error {move : Move} (h : move.run options ids before = (.error cause, after)) :
    ∃ place spec, move = .create place spec ∧
      before.state.scene.schemas.contains spec.type = false ∧ cause = .creation spec.type ∧
        after = before := by
  have hnot : ∀ {step : BuildStep LiveScene Unit}, Total step →
      step before ≠ (.error cause, after) := by
    intro step htotal herror
    obtain ⟨mid, hstep⟩ := htotal before
    cases (Prod.mk.inj (hstep.symm.trans herror)).1
  cases move with
  | create place spec =>
    refine ⟨place, spec, rfl, ?_⟩
    have hcreate : Build.create LiveScene.host spec.type before = (.error cause, after) := by
      rcases bind_error_cases h with hcreate | ⟨node, mid, _, hpure⟩
      · exact hcreate
      · cases (Prod.mk.inj hpure).1
    have hlive : LiveScene.host.create spec.type none before.state =
        LiveScene.create spec.type none before.state := rfl
    unfold Build.create at hcreate
    rw [hlive, LiveScene.create_eq] at hcreate
    cases hschema : before.state.scene.schemas.contains spec.type with
    | true =>
      rw [hschema, if_pos rfl] at hcreate
      cases (Prod.mk.inj hcreate).1
    | false =>
      rw [hschema] at hcreate
      obtain ⟨hcause, rfl⟩ := Prod.mk.inj hcreate
      exact ⟨rfl, (Except.error.inj hcause).symm, rfl⟩
  | ask place request => exact absurd h (hnot (request.total_run _))
  | tag place label =>
    exact absurd h (hnot ((total_attempt _ _ _).bind (total_modify _)))
  | root place => exact absurd h (hnot (total_modify _))

theorem runMoves_error {moves : List Move}
    (h : runMoves options ids moves before = (.error cause, after)) :
    ∃ done place spec rest, moves = done ++ .create place spec :: rest ∧
      runMoves options ids done before = (.ok (), after) ∧
        after.state.scene.schemas.contains spec.type = false ∧ cause = .creation spec.type := by
  induction moves generalizing before with
  | nil => cases (Prod.mk.inj h).1
  | cons move rest ih =>
    rcases bind_error_cases h with hmove | ⟨_, mid, hmove, hrest⟩
    · obtain ⟨place, spec, rfl, hschema, hcause, rfl⟩ := Move.run_error hmove
      exact ⟨[], place, spec, rest, rfl, rfl, hschema, hcause⟩
    · obtain ⟨done, place, spec, later, rfl, hdone, hschema, hcause⟩ := ih hrest
      refine ⟨move :: done, place, spec, later, rfl, ?_, hschema, hcause⟩
      exact bind_eq_ok_iff.mpr ⟨(), mid, hmove, hdone⟩

end Stop

end ShaderMigration.Build
