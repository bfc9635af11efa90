import ShaderMigration.Proofs.BuildReplay

namespace ShaderMigration.Build

/-- The nodes that a request may be for: a value is checked when it is written, a node that is linked is
there by then. -/
def Request.sees (start : LiveScene) (total : Nat) : Request → List NodeId
  | write _ _ _ made => idsWith start made
  | _ => idsWith start total

/-- Tags and references stand as they did. -/
structure SameRecord (before after : Building LiveScene) : Prop where
  tags : after.output.tags = before.output.tags
  waiting : after.waiting = before.waiting
  unresolved : after.output.unresolved = before.output.unresolved

/-- What a move does besides making a node: it adds an order to the log, lets a reference wait, sets a
tag, or none of these. -/
inductive Effect (options : BuildOptions) (start : LiveScene) (total : Nat)
    (log : List (Nat × Call)) (before after : Building LiveScene) :
    Move → List (Nat × Call) → Prop where
  | order {place : Nat} {request : Request} {order : Order}
      (horder : request.order? options start.idAt before (start.idAt place) = some order)
      (hsame : SameRecord before after) :
      Effect options start total log before after (.ask place request)
        (log ++ [(place, ⟨order, request.sees start total⟩)])
  | wait {place : Nat} {tag : String}
      (hnone : (Request.refer tag).order? options start.idAt before (start.idAt place) = none)
      (hwait : wait options (start.idAt place) tag before = (.ok (), after)) :
      Effect options start total log before after (.ask place (.refer tag)) log
  | tag {place : Nat} {label : String}
      (htags : after.output.tags = if before.output.tags.contains label then before.output.tags
        else before.output.tags.insert label (start.idAt place))
      (hwaiting : after.waiting = before.waiting)
      (hunresolved : after.output.unresolved = before.output.unresolved) :
      Effect options start total log before after (.tag place label) log
  | create {place : Nat} {spec : NodeSpec} (hsame : SameRecord before after) :
      Effect options start total log before after (.create place spec) log
  | root {place : Nat} (hsame : SameRecord before after) :
      Effect options start total log before after (.root place) log

section Step

variable {options : BuildOptions} {start : LiveScene} {made : List NodeSpec}
  {log : List (Nat × Call)} {before after : Building LiveScene} {place total : Nat}

theorem Order.sameRecord_run {order : Order} {node : NodeId}
    (h : order.run node before = (.ok (), after)) : SameRecord before after := by
  rcases run_cases h with ⟨_, _, _, _, _, _, rfl⟩ | ⟨cause, _, rfl⟩
  · exact ⟨rfl, rfl, rfl⟩
  · exact ⟨rfl, rfl, rfl⟩

theorem idsWith_subset {count count' : Nat} (h : count ≤ count') :
    idsWith start count ⊆ idsWith start count' := by
  intro node hnode
  rcases List.mem_append.mp hnode with hold | hnew
  · exact List.mem_append_left _ hold
  · obtain ⟨place, hplace, rfl⟩ := List.mem_map.mp hnew
    have hlt := List.mem_range.mp hplace
    exact List.mem_append_right _ (List.mem_map_of_mem (List.mem_range.mpr (by omega)))

theorem idAt_mem_idsWith (h : place < total) : start.idAt place ∈ idsWith start total :=
  List.mem_append_right _ (List.mem_map_of_mem (List.mem_range.mpr h))

theorem offer_link_of_subset {present present' : List NodeId} {source node : NodeId} {attr : String}
    {held : Option Slot} (h : source ∈ present) (hsub : present ⊆ present') :
    offer present' node attr held (.connection ⟨source, none⟩) =
      offer present node attr held (.connection ⟨source, none⟩) :=
  (offerPlug_of_mem (hsub h)).trans (offerPlug_of_mem h).symm

/-- A node that is there takes a tag, which leads to it unless it led to another one before. -/
theorem tagNode_cases {node : NodeId} {label : String}
    (hnode : node ∈ before.state.scene.nodes.keys)
    (h : tagNode LiveScene.host options node label before = (.ok (), after)) :
    ∃ scene, before.state.scene.setTag node options.tagKey label = .ok scene ∧
      after = { before with
        state := { before.state with scene }
        output := { before.output with
          tags := if before.output.tags.contains label then before.output.tags
            else before.output.tags.insert label node } } := by
  unfold tagNode at h
  obtain ⟨_, mid, hattempt, h⟩ := bind_eq_ok_iff.mp h
  have hedit : attempt node options.tagKey (LiveScene.edit () fun scene =>
      scene.setTag node options.tagKey label) before = (.ok (), mid) := hattempt
  rw [modify_eq_ok_iff] at h
  subst h
  rcases attempt_cases hedit with ⟨scene, hscene, rfl⟩ | ⟨cause, herror, _⟩
  · refine ⟨scene, hscene, ?_⟩
    dsimp only
    split <;> rfl
  · obtain ⟨found, hfound⟩ := Table.mem_keys_iff.mp hnode
    simp [Scene.setTag, hfound] at herror

namespace Replay

theorem mem_of_resolve? (h : Replay start made log before) {tag : String} {node source : NodeId}
    (hsource : resolve? options (LiveScene.host.reads before.state) before.output tag node =
      some source) : source ∈ idsWith start made.length := by
  unfold resolve? at hsource
  split at hsource
  next htag =>
    have hcreated := h.tagged tag _ htag
    rw [h.created, Option.some.inj hsource] at hcreated
    exact List.mem_append_right _ hcreated
  next =>
    split at hsource
    next => cases hsource
    next => exact h.keys ▸ List.mem_of_find?_eq_some hsource

theorem ask (h : Replay start made log before) {request : Request} (hplace : place < made.length)
    (hfits : request.Fits made place) (htotal : made.length ≤ total)
    (hrun : request.run options start.idAt (start.idAt place) before = (.ok (), after)) :
    ∃ log', Replay start made log' after ∧
      Effect options start total log before after (.ask place request) log' := by
  rcases Request.run_cases hrun with ⟨order, horder, hrun⟩ | ⟨tag, rfl, hnone, hwait⟩
  · refine ⟨_, h.order hplace ?_ hrun, .order horder (Order.sameRecord_run hrun)⟩
    intro key attr value held heq
    subst heq
    cases request with
    | unlisted id => cases horder
    | write key' attr' value' count =>
      cases horder
      rw [Request.sees, hfits]
    | link key' attr' child other =>
      cases horder
      have hother := (List.getElem?_eq_some_iff.mp hfits.2).1
      exact offer_link_of_subset (idAt_mem_idsWith hother) (idsWith_subset htotal)
    | refer tag =>
      obtain ⟨source, hsource, heq⟩ := Option.map_eq_some_iff.mp horder
      cases heq
      exact offer_link_of_subset (h.mem_of_resolve? hsource) (idsWith_subset htotal)
  · refine ⟨log, ?_, .wait hnone hwait⟩
    rcases wait_cases hwait with ⟨_, rfl⟩ | ⟨_, rfl⟩
    · exact h.of_same rfl rfl rfl (fun _ _ => rfl) rfl rfl h.tagged
    · exact h.of_same rfl rfl rfl (fun _ _ => rfl) rfl rfl h.tagged

theorem tag (h : Replay start made log before) (hplace : place < made.length) {label : String}
    (hrun : tagNode LiveScene.host options (start.idAt place) label before = (.ok (), after)) :
    Replay start made log after ∧
      Effect options start total log before after (.tag place label) log := by
  obtain ⟨scene, hscene, rfl⟩ := tagNode_cases (h.mem_keys_idAt hplace) hrun
  obtain ⟨hkeys, hschemas, hslots⟩ := Scene.same_of_setTag hscene
  refine ⟨h.of_same hschemas rfl hkeys hslots rfl rfl fun other source hsource => ?_,
    .tag rfl rfl rfl⟩
  dsimp only at hsource
  split at hsource
  next => exact h.tagged other source hsource
  next =>
    by_cases heq : other = label
    · subst heq
      rw [Table.find?_insert_self] at hsource
      rw [← Option.some.inj hsource, h.created]
      exact List.mem_map_of_mem (List.mem_range.mpr hplace)
    · rw [Table.find?_insert_of_ne _ heq] at hsource
      exact h.tagged other source hsource

/-- A reference that waited is an order once its tag is known. -/
theorem answer (h : Replay start made log before) (hplace : place < made.length)
    (htotal : made.length ≤ total) {tag : String}
    (hrun : feedByTag LiveScene.host options (start.idAt place) tag
      (leaveUnresolved (start.idAt place) tag) before = (.ok (), after)) :
    (∃ source, resolve? options (LiveScene.host.reads before.state) before.output tag
        (start.idAt place) = some source ∧ SameRecord before after ∧
      Replay start made (log ++ [(place, ⟨.link options.primaryInput options.primaryInput source,
        idsWith start total⟩)]) after) ∨
      resolve? options (LiveScene.host.reads before.state) before.output tag (start.idAt place) =
        none ∧ Replay start made log after ∧ after = { before with
          output := { before.output with
            unresolved := before.output.unresolved ++ [⟨start.idAt place, tag⟩] } } := by
  unfold feedByTag at hrun
  split at hrun
  next source hsource =>
    have horder : (Order.link options.primaryInput options.primaryInput source).run
        (start.idAt place) before = (.ok (), after) := hrun
    refine Or.inl ⟨source, hsource, Order.sameRecord_run horder, h.order hplace ?_ horder⟩
    intro key attr value held heq
    cases heq
    exact offer_link_of_subset (h.mem_of_resolve? hsource) (idsWith_subset htotal)
  next hnone =>
    obtain rfl := modify_eq_ok_iff.mp hrun
    exact Or.inr ⟨hnone, h.of_same rfl rfl rfl (fun _ _ => rfl) rfl rfl h.tagged, rfl⟩

/-- Every move keeps the log right, and does little else. -/
theorem move (h : Replay start made log before) {move : Move} (hfits : move.Fits made)
    (hunused : start.NextUnused (made.length + move.makes.length)) (htotal : made.length ≤ total)
    (hrun : move.run options start.idAt before = (.ok (), after)) :
    ∃ log', Replay start (made ++ move.makes) log' after ∧
      Effect options start total log before after move log' := by
  cases move with
  | create place spec =>
    obtain ⟨node, hcreate⟩ := Move.run_create hrun
    refine ⟨log, h.create hunused hcreate, .create ?_⟩
    obtain ⟨_, name, rfl, rfl⟩ := create_cases hcreate
    exact ⟨rfl, rfl, rfl⟩
  | ask place request =>
    have hmade : made ++ (Move.ask place request).makes = made := List.append_nil made
    rw [hmade]
    exact h.ask hfits.1 hfits.2 htotal hrun
  | tag place label =>
    have hmade : made ++ (Move.tag place label).makes = made := List.append_nil made
    rw [hmade]
    exact ⟨log, h.tag hfits hrun⟩
  | root place =>
    have hmade : made ++ (Move.root place).makes = made := List.append_nil made
    rw [hmade]
    obtain rfl := modify_eq_ok_iff.mp hrun
    exact ⟨log, h.of_same rfl rfl rfl (fun _ _ => rfl) rfl rfl h.tagged, .root ⟨rfl, rfl, rfl⟩⟩

/-- A run of the first moves has a log, and what every step of the run keeps holds of it. -/
theorem exists_log_of_run {moves : List Move} (hordered : Ordered [] moves)
    (hunused : start.NextUnused (makes moves).length)
    {P : List Move → List (Nat × Call) → Building LiveScene → Prop}
    (hinitial : P [] [] { state := start })
    (hstep : ∀ {done move rest log log' before after}, moves = done ++ move :: rest →
      P done log before → Replay start (makes done) log before → move.Fits (makes done) →
        move.run options start.idAt before = (.ok (), after) →
          Effect options start (makes moves).length log before after move log' →
            Replay start (makes (done ++ [move])) log' after → P (done ++ [move]) log' after)
    {done rest : List Move} (hsplit : moves = done ++ rest)
    (hrun : runMoves options start.idAt done { state := start } = (.ok (), after)) :
    ∃ log, Replay start (makes done) log after ∧ P done log after := by
  -- on the moves done, since the log grows at its end
  induction done using List.reverseRecOn generalizing rest after with
  | nil =>
    obtain ⟨-, rfl⟩ := pure_eq_ok_iff.mp hrun
    exact ⟨[], initial start, hinitial⟩
  | append_singleton done move ih =>
    rw [runMoves_append, runMoves_singleton] at hrun
    obtain ⟨_, mid, hfirst, hmove⟩ := bind_eq_ok_iff.mp hrun
    have hsplit' : moves = done ++ move :: rest := by rw [hsplit, List.append_assoc]; rfl
    obtain ⟨log, hmid, hP⟩ := ih hsplit' hfirst
    rw [hsplit', ordered_append, List.nil_append] at hordered
    have hfits : move.Fits (makes done) := hordered.2.1
    have hlength : (makes moves).length =
        (makes done).length + (move.makes.length + (makes rest).length) := by
      rw [hsplit', makes_append, makes_cons, List.length_append, List.length_append]
    obtain ⟨log', hreplay, heffect⟩ := hmid.move hfits
      (hunused.mono (by omega)) (by omega : (makes done).length ≤ (makes moves).length) hmove
    have hmakes : makes (done ++ [move]) = makes done ++ move.makes := by
      rw [makes_append, makes_cons]
      simp [makes]
    rw [hmakes]
    exact ⟨log', hreplay, hstep hsplit' hP hmid hfits hmove heffect (hmakes ▸ hreplay)⟩

/-- A run of the first moves has a log, and what every effect keeps holds of it. -/
theorem exists_log {moves : List Move} (hordered : Ordered [] moves)
    (hunused : start.NextUnused (makes moves).length)
    {P : List Move → List (Nat × Call) → Building LiveScene → Prop}
    (hinitial : P [] [] { state := start })
    (hstep : ∀ {done move rest log log' before after}, moves = done ++ move :: rest →
      P done log before → Replay start (makes done) log before → move.Fits (makes done) →
        Effect options start (makes moves).length log before after move log' →
          Replay start (makes (done ++ [move])) log' after → P (done ++ [move]) log' after)
    {done rest : List Move} (hsplit : moves = done ++ rest)
    (hrun : runMoves options start.idAt done { state := start } = (.ok (), after)) :
    ∃ log, Replay start (makes done) log after ∧ P done log after :=
  exists_log_of_run hordered hunused hinitial
    (fun hsplit hP hmid hfits _ => hstep hsplit hP hmid hfits) hsplit hrun

end Replay

end Step

end ShaderMigration.Build
