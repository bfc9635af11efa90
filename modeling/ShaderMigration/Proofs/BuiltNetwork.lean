import ShaderMigration.Proofs.RecordedRequests

namespace ShaderMigration

namespace Build

variable {options : BuildOptions} {start : LiveScene}

/-- What the answers to waiting references add to a build: the calls of each node, and a record for each
reference whose tag no node has. -/
structure Answered (options : BuildOptions) (start : LiveScene) (made : List NodeSpec)
    (references : List (NodeId × String)) (before : Building LiveScene) (log : List (Nat × Call))
    (after : Building LiveScene) : Prop where
  tags : after.output.tags = before.output.tags
  calls : ∀ place < made.length, callsAt place log = (waitingAt start place references).filterMap
    (Request.call? options start made.length before.output.tags)
  unresolved : after.output.unresolved = before.output.unresolved ++
    (references.filter fun entry => !before.output.tags.contains entry.2).map
      fun entry => ⟨entry.1, entry.2⟩

theorem Answered.append {made : List NodeSpec} {references references' : List (NodeId × String)}
    {log log' : List (Nat × Call)} {before mid after : Building LiveScene}
    (h : Answered options start made references before log mid)
    (h' : Answered options start made references' mid log' after) :
    Answered options start made (references ++ references') before (log ++ log') after where
  tags := h'.tags.trans h.tags
  calls := fun place hplace => by
    rw [callsAt_append, waitingAt_append, List.filterMap_append, h.calls place hplace,
      h'.calls place hplace, h.tags]
  unresolved := by
    rw [h'.unresolved, h.unresolved, h.tags, List.append_assoc, ← List.map_append, ← List.filter_append]

theorem Answered.mem_unresolved {made : List NodeSpec} {references : List (NodeId × String)}
    {log : List (Nat × Call)} {before after : Building LiveScene} {place : Nat} {tag : String}
    (h : Answered options start made references before log after)
    (hwaits : .refer tag ∈ waitingAt start place references)
    (hnone : before.output.tags.find? tag = none) :
    ⟨start.idAt place, tag⟩ ∈ after.output.unresolved := by
  obtain ⟨entry, hentry, htag⟩ := List.mem_map.mp hwaits
  obtain ⟨hmem, hnode⟩ := List.mem_filter.mp hentry
  cases htag
  rw [h.unresolved, ← beq_iff_eq.mp hnode]
  have hlost : (!before.output.tags.contains entry.2) = true := by simp [Table.contains, hnone]
  exact List.mem_append_right _ (List.mem_map.mpr ⟨entry, List.mem_filter.mpr ⟨hmem, hlost⟩, rfl⟩)

/-- One waiting reference is answered by the node of its tag, or recorded when there is none. -/
theorem Replay.answer_waiting {made : List NodeSpec} {log : List (Nat × Call)}
    {before after : Building LiveScene} (h : Replay start made log before) {place : Nat} {tag : String}
    (hplace : place < made.length) (hsettled : Settled options before tag)
    (hrun : feedByTag LiveScene.host options (start.idAt place) tag
      (leaveUnresolved (start.idAt place) tag) before = (.ok (), after)) :
    ∃ log', Replay start made (log ++ log') after ∧
      Answered options start made [(start.idAt place, tag)] before log' after ∧
      ∀ node, after.state.scene.tag? node options.tagKey = before.state.scene.tag? node options.tagKey := by
  have hwaiting : ∀ other < made.length, waitingAt start other [(start.idAt place, tag)] =
      if place = other then [.refer tag] else [] := by
    intro other hother
    by_cases heq : place = other
    · simp [waitingAt, heq]
    · have hne : start.idAt place ≠ start.idAt other := fun hids => heq (h.idAt_inj hplace hother hids)
      simp [waitingAt, heq, hne]
  have hanswer := resolve?_of_settled hsettled (start.idAt place)
  rcases h.answer hplace (Nat.le_refl _) hrun with
    ⟨source, hsource, hsame, hafter⟩ | ⟨hnone, hafter, rfl⟩
  · have horder : (Order.link options.primaryInput options.primaryInput source).run
        (start.idAt place) before = (.ok (), after) := by
      rw [← hrun, feedByTag, hsource]
      rfl
    rw [hanswer] at hsource
    refine ⟨_, hafter, ⟨hsame.tags, fun other hother => ?_, ?_⟩, fun node => Order.tag?_run horder node _⟩
    · rw [hwaiting other hother]
      by_cases heq : place = other
      · simp [callsAt, Request.call?, heq, hsource]
      · simp [callsAt, heq]
    · rw [hsame.unresolved]
      simp [Table.contains, hsource]
  · rw [hanswer] at hnone
    refine ⟨[], by rwa [List.append_nil], ⟨rfl, fun other hother => ?_, ?_⟩, fun _ => rfl⟩
    · rw [hwaiting other hother]
      by_cases heq : place = other
      · simp [callsAt, Request.call?, heq, hnone]
      · simp [callsAt, heq]
    · simp [Table.contains, hnone]

/-- The references that waited are answered in turn. -/
theorem Replay.answers {made : List NodeSpec} {log : List (Nat × Call)}
    {before after : Building LiveScene} (h : Replay start made log before)
    {references : List (NodeId × String)}
    (hsettled : ∀ entry ∈ references, Settled options before entry.2)
    (hnodes : ∀ entry ∈ references, ∃ place < made.length, entry.1 = start.idAt place)
    (hrun : resolveWaiting LiveScene.host options references before = (.ok (), after)) :
    ∃ log', Replay start made (log ++ log') after ∧
      Answered options start made references before log' after := by
  induction references generalizing log before with
  | nil =>
    obtain ⟨-, rfl⟩ := pure_eq_ok_iff.mp hrun
    exact ⟨[], by rwa [List.append_nil], rfl, fun _ _ => rfl, by simp⟩
  | cons entry rest ih =>
    obtain ⟨node, tag⟩ := entry
    obtain ⟨⟨place, hplace, hnode⟩, hnodes'⟩ := List.forall_mem_cons.mp hnodes
    obtain ⟨htag, hrestSettled⟩ := List.forall_mem_cons.mp hsettled
    dsimp only at hnode
    subst hnode
    obtain ⟨_, mid, hfirst, hrest⟩ := bind_eq_ok_iff.mp hrun
    obtain ⟨asked, hmid, hanswered, hcarried⟩ := h.answer_waiting hplace htag hfirst
    have hkeys : mid.state.scene.nodes.keys = before.state.scene.nodes.keys :=
      hmid.keys.trans h.keys.symm
    have hsettled' : ∀ entry ∈ rest, Settled options mid entry.2 := by
      intro entry he hscope hnew
      rw [Scene.carrier?_congr hkeys hcarried]
      exact hrestSettled entry he hscope (hanswered.tags ▸ hnew)
    obtain ⟨log', hreplay, hanswers⟩ := ih hmid hsettled' hnodes' hrest
    exact ⟨asked ++ log', List.append_assoc log asked log' ▸ hreplay, hanswered.append hanswers⟩

/-- All moves are done and nothing waits: every request of a node was made or is left over. -/
structure Finished (options : BuildOptions) (start : LiveScene) (done : List Move)
    (log : List (Nat × Call)) (building : Building LiveScene) : Prop where
  replay : Replay start (makes done) log building
  asked : ∀ place < (makes done).length, callsAt place log = (asksAt place done).filterMap
    (Request.call? options start (makes done).length building.output.tags)
  unresolved : ∀ place < (makes done).length,
    (building.output.unresolved.filter fun reference => reference.node == start.idAt place) =
      (asksAt place done).filterMap (Request.leftOver? building.output.tags (start.idAt place))
  leaving : ∀ reference ∈ building.output.unresolved, reference.node ∈ building.output.created
  tags : ∀ tag, building.output.tags.contains tag = true ↔ ∃ place, .tag place tag ∈ done
  tagged : ∀ tag source, building.output.tags.find? tag = some source →
    ∃ place, source = start.idAt place ∧ .tag place tag ∈ done

theorem filterMap_leftOver?_waitingAt (tags : Table String NodeId) (place : Nat)
    (references : List (NodeId × String)) :
    (waitingAt start place references).filterMap (Request.leftOver? tags (start.idAt place)) =
      ((references.filter fun entry => !tags.contains entry.2).map
        fun entry => (⟨entry.1, entry.2⟩ : UnresolvedReference)).filter
          fun reference => reference.node == start.idAt place := by
  induction references with
  | nil => rfl
  | cons entry rest ih =>
    obtain ⟨node, tag⟩ := entry
    have hsplit : ∀ references, waitingAt start place ((node, tag) :: references) =
        waitingAt start place [(node, tag)] ++ waitingAt start place references := fun references =>
      waitingAt_append place [(node, tag)] references
    rw [hsplit, List.filterMap_append, ih, List.filter_cons]
    by_cases hnode : node = start.idAt place
    · cases htag : tags.contains tag <;> simp [waitingAt, Request.leftOver?, hnode, htag]
    · cases htag : tags.contains tag <;> simp [waitingAt, hnode]

theorem Recorded.finish {done : List Move} {log : List (Nat × Call)}
    {before after : Building LiveScene}
    (h : Recorded options start (makes done).length done log before)
    (hscope : options.tagScope = .build)
    (hrun : resolveWaiting LiveScene.host options before.waiting before = (.ok (), after)) :
    ∃ log', Finished options start done log' after := by
  have hsettled : ∀ entry ∈ before.waiting, Settled options before entry.2 := by
    intro entry _ hdocument
    rw [hscope] at hdocument
    cases hdocument
  obtain ⟨log', hreplay, htags, hcalls, hunresolved⟩ := h.replay.answers hsettled h.waiting hrun
  rw [h.unresolved, List.nil_append] at hunresolved
  have hasked : ∀ place < (makes done).length, ∃ asked,
      asksAt place done = asked ++ waitingAt start place before.waiting ∧
        asked.filterMap (Request.call? options start (makes done).length before.output.tags) =
          callsAt place log ∧
        asked.filterMap (Request.leftOver? before.output.tags (start.idAt place)) = [] := by
    intro place hplace
    obtain ⟨asked, hasks, hmade⟩ := h.asked place hplace
    refine ⟨asked, hasks, ?_, ?_⟩
    · have hsome := congrArg (List.filterMap id) hmade
      simpa [List.filterMap_map] using hsome
    · -- a request that was made has its call, so it leaves nothing over
      rw [List.filterMap_eq_nil_iff]
      intro request hrequest
      have hmem : request.call? options start (makes done).length before.output.tags ∈
          (callsAt place log).map some := hmade ▸ List.mem_map_of_mem hrequest
      obtain ⟨call, _, hcall⟩ := List.mem_map.mp hmem
      exact Request.leftOver?_eq_none hcall.symm _
  refine ⟨log ++ log', hreplay, ?_, ?_, ?_, htags ▸ h.tags, htags ▸ h.tagged⟩
  · intro place hplace
    obtain ⟨asked, hasks, hmade, _⟩ := hasked place hplace
    rw [callsAt_append, hcalls place hplace, htags, hasks, List.filterMap_append, hmade]
  · intro place hplace
    obtain ⟨asked, hasks, _, hnone⟩ := hasked place hplace
    rw [hasks, htags, List.filterMap_append, hnone, List.nil_append, hunresolved,
      filterMap_leftOver?_waitingAt]
  · intro reference hreference
    rw [hunresolved] at hreference
    obtain ⟨entry, hentry, rfl⟩ := List.mem_map.mp hreference
    obtain ⟨place, hplace, heq⟩ := h.waiting entry (List.mem_filter.mp hentry).1
    rw [hreplay.created]
    exact heq ▸ List.mem_map_of_mem (List.mem_range.mpr hplace)

/-- A node is asked for nothing after it referred to a tag. -/
theorem refer_not_mem_dropLast_asksAt (options : BuildOptions) (roots : List NodeSpec)
    (start : LiveScene) (place : Nat) (tag : String) :
    .refer tag ∉ (asksAt place (treeScript options roots start)).dropLast := by
  cases hspec : (roots.flatMap fun spec => spec.described start.scene.schemas)[place]? with
  | some spec =>
    rw [asksAt_treeScript hspec]
    exact spec.refer_not_mem_dropLast_requests place tag
  | none =>
    intro hmem
    obtain ⟨spec, hsome, _⟩ := exists_spec_of_mem_treeScript rfl
      (mem_asksAt_iff.mp ((List.dropLast_sublist _).subset hmem))
    rw [hspec] at hsome
    cases hsome

/-- A build that ends well has made every request of the tree, or has left it over. -/
theorem exists_finished_of_buildAll (hoptions : options.Deferring) {roots : List NodeSpec}
    {final : Building LiveScene}
    (hrun : buildAll LiveScene.host options roots { state := start } = (.ok (), final))
    (hunused : start.NextUnused
      (roots.flatMap fun spec => spec.described start.scene.schemas).length) :
    ∃ log, Finished options start (treeScript options roots start) log final := by
  obtain ⟨mid, hroots, hwaiting⟩ := buildAll_eq_ok_iff.mp hrun
  have hlaid := laid_treeScript options roots start
  rw [buildRoots_eq_runMoves hunused] at hroots
  rw [← hlaid.makes] at hunused
  have hlast := refer_not_mem_dropLast_asksAt options roots start
  obtain ⟨log, hrecorded⟩ := Recorded.run hoptions hlaid.ordered hunused hlast hroots
  exact hrecorded.finish hoptions.scope hwaiting

end Build

end ShaderMigration
