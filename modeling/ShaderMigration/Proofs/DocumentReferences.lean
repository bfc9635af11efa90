import ShaderMigration.Proofs.ConsultedTags

namespace ShaderMigration

/-- The node is fed by the source, or it refuses that connection, which is on record. -/
def BuildOutput.Wires (options : BuildOptions) (scene : Scene) (output : BuildOutput)
    (source node : NodeId) : Prop :=
  scene.reads.connections node options.primaryInput = .ok [⟨source, none⟩] ∨
    ∃ cause, scene.connect ⟨source, none⟩ node options.primaryInput = .error cause ∧
      ⟨node, options.primaryInput, cause⟩ ∈ output.failures

namespace Build

variable {options : BuildOptions} {start : LiveScene} {place : Nat} {tag : String}
  {done earlier : List Move} {log log' : List (Nat × Call)}
  {before after : Building LiveScene}

/-- A node shows what its last call came to. -/
theorem Replay.wires_of_last {made : List NodeSpec} (h : Replay start made log before)
    {spec : NodeSpec} (hspec : made[place]? = some spec) {calls : List Call} {source : NodeId}
    (hcalls : callsAt place log = calls ++ [primaryCall options start made.length source]) :
    before.output.Wires options before.state.scene source (start.idAt place) := by
  have hplace := (List.getElem?_eq_some_iff.mp hspec).1
  let earlier := Ledger.after (start.idAt place) (start.scene.freshSlots spec.type).find? calls
  have hledger : ledgerAt start log place spec.type =
      earlier.take (start.idAt place) (primaryCall options start made.length source) := by
    rw [ledgerAt, hcalls, Ledger.after_concat]
  have hheld := h.held place spec hspec options.primaryInput
  have hfailures := h.failures place spec hspec
  rw [hledger] at hheld hfailures
  cases hoffer : offer (idsWith start made.length) (start.idAt place) options.primaryInput
      (earlier.held options.primaryInput) (.connection ⟨source, none⟩) with
  | ok slot =>
    have htake : earlier.take (start.idAt place) (primaryCall options start made.length source) =
        _ := Ledger.take_of_ok hoffer
    rw [htake] at hheld
    obtain ⟨old, _, ⟨plug, hplug, rfl⟩ | ⟨hnot, _⟩⟩ := offer_cases hoffer
    · cases hplug
      refine Or.inl (Scene.connections_eq_singleton_iff.mpr
        ⟨{ old with input := some ⟨source, none⟩ }, hheld.trans ?_, rfl⟩)
      simp [Ledger.accept]
    · exact absurd rfl (hnot _)
  | error cause =>
    have htake : earlier.take (start.idAt place) (primaryCall options start made.length source) =
        _ := Ledger.take_of_error hoffer
    rw [htake] at hheld hfailures
    refine Or.inr ⟨cause, ?_, ?_⟩
    · have hoffer' : offerPlug before.state.scene.nodes.keys (start.idAt place)
          options.primaryInput (before.state.scene.slot? (start.idAt place) options.primaryInput)
            ⟨source, none⟩ = .error cause := by
        rw [hheld, h.keys]
        exact hoffer
      rw [connect_eq_offerPlug (h.mem_keys_idAt hplace), hoffer']
      rfl
    · rw [Ledger.refusals_refuse] at hfailures
      have hmem := List.mem_append_right (earlier.refusals (start.idAt place))
        (List.mem_singleton.mpr (rfl : (⟨start.idAt place, options.primaryInput, cause⟩ :
          BuildFailure) = _))
      exact (List.mem_filter.mp (hfailures ▸ hmem)).1

/-- What a reference comes to after all moves, the earlier ones being those before it. -/
structure Outcome (options : BuildOptions) (start : LiveScene) (earlier : List Move) (node : NodeId)
    (tag : String) (scene : Scene) (output : BuildOutput) : Prop where
  /-- The node of this build, if it was tagged before or no older node carries the tag. -/
  own : ∀ producer, output.tags.find? tag = some producer →
    issues tag earlier = true ∨ start.scene.carrier? options.tagKey tag = none →
      output.Wires options scene producer node
  /-- An older node, if it carries the tag and none was tagged before. -/
  older : issues tag earlier = false →
    ∀ carrier, start.scene.carrier? options.tagKey tag = some carrier →
      carrier ∉ output.created ∧ output.Wires options scene carrier node
  lost : output.tags.find? tag = none → start.scene.carrier? options.tagKey tag = none →
    ⟨node, tag⟩ ∈ output.unresolved

theorem Outcome.of_leadsTo? {node : NodeId} {scene : Scene} {output : BuildOutput}
    (hcreated : ∀ node ∈ output.created, node ∉ start.scene.nodes.keys)
    (hsome : ∀ source, leadsTo? options start earlier output.tags tag = some source →
      output.Wires options scene source node)
    (hnone : leadsTo? options start earlier output.tags tag = none →
      ⟨node, tag⟩ ∈ output.unresolved) : Outcome options start earlier node tag scene output where
  own := by
    intro producer hproducer hfirst
    refine hsome producer ?_
    unfold leadsTo?
    split
    next => exact hproducer
    next hnot => rw [hfirst.resolve_left hnot, Option.none_or, hproducer]
  older := by
    intro hnot carrier hcarrier
    refine ⟨fun hmem => hcreated carrier hmem (List.mem_of_find?_eq_some hcarrier), ?_⟩
    refine hsome carrier ?_
    rw [leadsTo?, hnot, if_neg Bool.false_ne_true, hcarrier, Option.some_or]
  lost := by
    intro htag hcarrier
    refine hnone ?_
    rw [leadsTo?, hcarrier, htag, Option.none_or, ite_self]

/-- A reference that was the last call of its node has its outcome, and one that waits gets it from the
answers. -/
theorem Standing.outcome {made : List NodeSpec} {spec : NodeSpec} (hspec : made[place]? = some spec)
    (h : Standing options start made.length earlier place tag log before)
    (hafter : Replay start made (log ++ log') after)
    (hanswers : Answered options start made before.waiting before log' after) :
    Outcome options start earlier (start.idAt place) tag after.state.scene after.output := by
  have hcreated : ∀ node ∈ after.output.created, node ∉ start.scene.nodes.keys := by
    intro node hnode
    rw [hafter.created] at hnode
    obtain ⟨other, hother, rfl⟩ := List.mem_map.mp hnode
    exact hafter.not_mem_idAt (List.mem_range.mp hother)
  have hcalls := hanswers.calls place (List.getElem?_eq_some_iff.mp hspec).1
  cases h with
  | @led source calls hleads hlast hwaiting =>
    -- nothing of this node waits, so its last call stays the last one
    rw [hwaiting, List.filterMap_nil] at hcalls
    have hlast' : callsAt place (log ++ log') = calls ++ [primaryCall options start made.length source] := by
      rw [callsAt_append, hcalls, List.append_nil, hlast]
    rw [← hanswers.tags] at hleads
    refine .of_leadsTo? hcreated (fun other hother => ?_) fun hnone => ?_
    · rw [hleads] at hother
      exact Option.some.inj hother ▸ hafter.wires_of_last hspec hlast'
    · rw [hleads] at hnone
      cases hnone
  | waits hearlier hcarrier hwaits =>
    -- no older node carries the tag, so only a node of this build can answer
    have hleads : leadsTo? options start earlier after.output.tags tag =
        before.output.tags.find? tag := by
      rw [leadsTo?, hearlier, if_neg Bool.false_ne_true, hcarrier, Option.none_or, hanswers.tags]
    refine .of_leadsTo? hcreated (fun source hsource => ?_) fun hnone => ?_
    · rw [hleads] at hsource
      have hlast : callsAt place (log ++ log') = callsAt place log ++
          [primaryCall options start made.length source] := by
        rw [callsAt_append, hcalls, hwaits]
        simp [Request.call?, hsource, primaryCall]
      exact hafter.wires_of_last hspec hlast
    · rw [hleads] at hnone
      exact hanswers.mem_unresolved (hwaits ▸ List.mem_singleton.mpr rfl) hnone

/-- The references that wait are answered at last, by nodes of this build only. -/
theorem Consulted.finish
    (h : Consulted options start (makes done).length done log before)
    (hreplay : Replay start (makes done) log before)
    (hrun : resolveWaiting LiveScene.host options before.waiting before = (.ok (), after)) :
    Named start done after.output.tags ∧
      after.output.created = (List.range (makes done).length).map start.idAt ∧
      ∀ earlier place tag rest spec, done = earlier ++ .ask place (.refer tag) :: rest →
        (makes done)[place]? = some spec →
          Outcome options start earlier (start.idAt place) tag after.state.scene after.output := by
  have hnodes : ∀ entry ∈ before.waiting, ∃ place < (makes done).length,
      entry.1 = start.idAt place := by
    intro entry he
    obtain ⟨place, hplace, hnode, _⟩ := h.waiting entry he
    exact ⟨place, hplace, hnode⟩
  obtain ⟨log', hafter, hanswers⟩ :=
    hreplay.answers (fun _ he => h.settled hreplay he) hnodes hrun
  refine ⟨hanswers.tags ▸ h.named, hafter.created, fun earlier place tag rest spec hsplit hspec => ?_⟩
  have hplace := (List.getElem?_eq_some_iff.mp hspec).1
  exact (h.standing earlier place tag rest hsplit hplace).outcome hspec hafter hanswers

end Build

/-- How a tree that looks for tags in the whole scene was built: every tag that a description has leads to
a node made for one that has it, and every reference has come to what was there before it. -/
structure BuildOutput.SettlesInScene (options : BuildOptions) (tree : NodeTree) (live : LiveScene)
    (scene : Scene) (output : BuildOutput) : Prop where
  created : output.created =
    (List.range (tree.described live.scene.schemas).length).map live.idAt
  producer : ∀ spec ∈ tree.described live.scene.schemas, ∀ tag, spec.tag = some tag →
    ∃ place other, output.tags.find? tag = some (live.idAt place) ∧
      (tree.described live.scene.schemas)[place]? = some other ∧ other.tag = some tag
  reference : ∀ place spec tag, (tree.described live.scene.schemas)[place]? = some spec →
    spec.feed = .tagged tag → ∃ earlier later,
      Build.treeScript options tree.roots live = earlier ++ .ask place (.refer tag) :: later ∧
        Build.Outcome options live earlier (live.idAt place) tag scene output

/-- In the whole scene the node of this build wins, unless an older one carries the tag and the reference
is met before any description with the tag is tagged: then the older node is taken. -/
theorem settlesInScene_of_build {tree : NodeTree} {options : BuildOptions} {live after : LiveScene}
    {output : BuildOutput} (hscope : options.tagScope = .document)
    (hdeferred : options.deferred = true)
    (hrun : tree.build LiveScene.host options live = (.ok output, after))
    (hunused : live.NextUnused (tree.described live.scene.schemas).length) :
    output.SettlesInScene options tree live after.scene := by
  obtain ⟨final, hall, rfl, rfl⟩ := NodeTree.build_eq_ok_iff.mp hrun
  obtain ⟨mid, hroots, hwaiting⟩ := Build.buildAll_eq_ok_iff.mp hall
  have hlaid := Build.laid_treeScript options tree.roots live
  rw [Build.buildRoots_eq_runMoves hunused] at hroots
  rw [NodeTree.described, ← hlaid.makes] at hunused
  obtain ⟨log, hreplay, hconsulted⟩ := Build.Consulted.run hscope hdeferred hlaid.ordered hunused
    (Build.refer_not_mem_dropLast_asksAt options tree.roots live) hroots
  obtain ⟨hnamed, hcreated, houtcome⟩ := hconsulted.finish hreplay hwaiting
  rw [hlaid.makes] at hcreated houtcome
  refine ⟨hcreated, fun spec hspec tag htag => ?_, fun place spec tag hspec hfeed => ?_⟩
  · obtain ⟨index, hindex⟩ := List.mem_iff_getElem?.mp hspec
    have hissued : Build.issues tag (Build.treeScript options tree.roots live) = true :=
      Build.issues_iff.mpr ⟨index, Build.mem_tag_treeScript_iff.mpr ⟨spec, hindex, htag⟩⟩
    rw [← hnamed.contains_eq] at hissued
    obtain ⟨source, hsource⟩ := Option.isSome_iff_exists.mp hissued
    obtain ⟨place, rfl, hmem⟩ := hnamed.source tag source hsource
    obtain ⟨other, hother, hcarries⟩ := Build.mem_tag_treeScript_iff.mp hmem
    exact ⟨place, other, hsource, hother, hcarries⟩
  · have hasks : Build.Request.refer tag ∈
        Build.asksAt place (Build.treeScript options tree.roots live) := by
      rw [Build.asksAt_treeScript hspec]
      simp [NodeSpec.requests, hfeed, NodeSpec.feedRequests]
    obtain ⟨earlier, later, hsplit⟩ := List.append_of_mem (Build.mem_asksAt_iff.mp hasks)
    exact ⟨earlier, later, hsplit, houtcome earlier place tag later spec hsplit hspec⟩

/-- The stage after an earlier build, which left a node tagged `grade`. -/
def gradedStage : LiveScene :=
  ((NodeTree.one ((NodeSpec.ofType "curves").tagAs "grade")).build LiveScene.host {} gradingStage).2

/-- One reference on each side of the description that has its tag. -/
def regradingTree : NodeTree :=
  .many
    [(NodeSpec.ofType "saver").fedByTag "grade",
      (NodeSpec.ofType "curves").tagAs "grade",
      (NodeSpec.ofType "saver").fedByTag "grade"]

def regrading : Except HostError BuildOutput × LiveScene :=
  regradingTree.build LiveScene.host { tagScope := .document } gradedStage

theorem regrading_settled :
    ∃ output, regrading.1 = .ok output ∧
      output.SettlesInScene { tagScope := .document } regradingTree gradedStage
        regrading.2.scene ∧
      output.created = [.ofNat 2, .ofNat 3, .ofNat 4] ∧
      output.tags.find? "grade" = some (.ofNat 3) := by
  have hok : regrading.1.isOk = true := by decide +kernel
  have hfacts : regrading.1.toOption.map (fun output => (output.created,
      output.tags.find? "grade")) =
      some ([.ofNat 2, .ofNat 3, .ofNat 4], some (.ofNat 3)) := by decide +kernel
  cases hresult : regrading.1 with
  | error cause =>
    rw [hresult] at hok
    cases hok
  | ok output =>
    have hrun : regrading = (.ok output, regrading.2) := by rw [← hresult]
    rw [hresult] at hfacts
    simp only [Except.toOption, Option.map_some, Option.some.injEq, Prod.mk.injEq] at hfacts
    exact ⟨output, rfl, settlesInScene_of_build rfl rfl hrun (by decide +kernel), hfacts⟩

/-- The reference that stands before the description is wired to the older node, and nothing failed;
only the one that follows is wired to the node of this build. -/
theorem regrading_takes_older :
    regrading.1.toOption.map (fun output => (output.tags.find? "grade", output.failures,
        output.unresolved)) = some (some (.ofNat 3), [], []) ∧
      regrading.2.scene.reads.connections (.ofNat 2) "Input" = .ok [⟨.ofNat 1, none⟩] ∧
      regrading.2.scene.reads.connections (.ofNat 4) "Input" = .ok [⟨.ofNat 3, none⟩] := by
  refine ⟨?_, ?_, ?_⟩ <;> decide +kernel

end ShaderMigration
