import ShaderMigration.Proofs.LaidScripts

namespace ShaderMigration

/-- The id of the node that will be the next one after so many. -/
def LiveScene.idAt (live : LiveScene) (place : Nat) : NodeId :=
  live.supply.id (live.supply.drawn + place)

theorem LiveScene.NextUnused.idAt_inj {live : LiveScene} {count : Nat} (h : live.NextUnused count)
    {place other : Nat} (hplace : place < count) (hother : other < count)
    (heq : live.idAt place = live.idAt other) : place = other := by
  rcases Nat.lt_trichotomy place other with hlt | hsame | hlt
  · exact absurd heq (h.distinct other hother place hlt)
  · exact hsame
  · exact absurd heq.symm (h.distinct place hplace other hlt)

namespace Build

/-- A request of which the value is known; a node is asked for by a connection to it. -/
inductive Order where
  | unlisted (id : String)
  | write (key attr : String) (value : Value)

namespace Order

def key : Order → String
  | unlisted id => id
  | write key _ _ => key

def attr? : Order → Option String
  | unlisted _ => none
  | write _ attr _ => some attr

def link (key attr : String) (source : NodeId) : Order := write key attr (.connection ⟨source, none⟩)

def run (node : NodeId) : Order → BuildStep LiveScene Unit
  | unlisted id => modify (fail node id (.noSuchAttribute node id))
  | write key attr value => attempt node key (LiveScene.host.set node attr value)

end Order

section Run

variable (options : BuildOptions) (ids : Nat → NodeId)

/-- The order that a request becomes; none when it is for a tag that is not known yet. -/
def Request.order? (building : Building LiveScene) (node : NodeId) : Request → Option Order
  | unlisted id => some (.unlisted id)
  | write key attr value _ => some (.write key attr value)
  | link key attr _ place => some (.link key attr (ids place))
  | refer tag => (resolve? options (LiveScene.host.reads building.state) building.output tag
      node).map (.link options.primaryInput options.primaryInput)

def Request.postpone (node : NodeId) : Request → BuildStep LiveScene Unit
  | refer tag => wait options node tag
  | _ => pure ()

def Request.run (node : NodeId) (request : Request) : BuildStep LiveScene Unit := fun building =>
  match request.order? options ids building node with
  | some order => order.run node building
  | none => request.postpone options node building

def Move.run : Move → BuildStep LiveScene Unit
  | .create _ spec => do
    let _ ← Build.create LiveScene.host spec.type
  | .ask place request => request.run options ids (ids place)
  | .tag place label => tagNode LiveScene.host options (ids place) label
  | .root place => modify fun building : Building LiveScene => { building with
      output := { building.output with roots := building.output.roots ++ [ids place] } }

def runMoves : List Move → BuildStep LiveScene Unit
  | [] => pure ()
  | move :: rest => do
    move.run options ids
    runMoves rest

variable {options ids}

theorem runMoves_append (moves moves' : List Move) : runMoves options ids (moves ++ moves') = (do
    runMoves options ids moves
    runMoves options ids moves') := by
  induction moves with
  | nil => simp [runMoves]
  | cons move rest ih => simp [runMoves, ih]

theorem runMoves_singleton (move : Move) : runMoves options ids [move] = move.run options ids := by
  simp [runMoves]

variable {before mid after : Building LiveScene} {node : NodeId}

/-- An assignment puts its edit in place, or records why it was refused. -/
theorem attempt_cases {key : String} {f : Scene → Except HostError Scene}
    (h : attempt node key (LiveScene.edit () f) before = (.ok (), after)) :
    (∃ scene, f before.state.scene = .ok scene ∧
      after = { before with state := { before.state with scene } }) ∨
      ∃ cause, f before.state.scene = .error cause ∧ after = fail node key cause before := by
  unfold attempt at h
  rcases LiveScene.edit_cases () f before.state with ⟨scene, hok, heq⟩ | ⟨cause, herror, heq⟩
  · rw [heq] at h
    exact Or.inl ⟨scene, hok, (Prod.mk.inj h).2.symm⟩
  · rw [heq] at h
    exact Or.inr ⟨cause, herror, (Prod.mk.inj h).2.symm⟩

/-- Why the scene refuses an order. -/
def Order.Refused (scene : Scene) (node : NodeId) (cause : HostError) : Order → Prop
  | unlisted id => cause = .noSuchAttribute node id
  | write _ attr value => scene.set node attr value = .error cause

theorem Order.run_cases {order : Order} (h : order.run node before = (.ok (), after)) :
    (∃ key attr value scene, order = .write key attr value ∧
      before.state.scene.set node attr value = .ok scene ∧
        after = { before with state := { before.state with scene } }) ∨
      ∃ cause, order.Refused before.state.scene node cause ∧
        after = fail node order.key cause before := by
  cases order with
  | unlisted id => exact Or.inr ⟨_, rfl, (modify_eq_ok_iff.mp h).symm⟩
  | write key attr value =>
    have hattempt : attempt node key (LiveScene.edit () fun scene => scene.set node attr value)
        before = (.ok (), after) := h
    rcases attempt_cases hattempt with ⟨scene, hok, heq⟩ | ⟨cause, herror, heq⟩
    · exact Or.inl ⟨key, attr, value, scene, rfl, hok, heq⟩
    · exact Or.inr ⟨cause, herror, heq⟩

theorem Order.extends_run {order : Order} (h : order.run node before = (.ok (), after)) :
    before.state.Extends [node] [] after.state := by
  rcases run_cases h with ⟨_, attr, _, scene, _, hok, rfl⟩ | ⟨cause, _, rfl⟩
  · exact .of_changesOnly (.of_rewrites (Scene.rewrites_of_set hok))
  · exact LiveScene.Extends.mono (.refl _) (by simp)

/-- A reference that is not resolved at once waits or is given up. -/
theorem wait_cases {tag : String} (h : wait options node tag before = (.ok (), after)) :
    options.deferred = true ∧ after = { before with waiting := before.waiting ++ [(node, tag)] } ∨
      options.deferred = false ∧ after = { before with
        output := { before.output with
          unresolved := before.output.unresolved ++ [⟨node, tag⟩] } } := by
  unfold wait leaveUnresolved at h
  split at h
  next hdeferred => exact Or.inl ⟨hdeferred, (modify_eq_ok_iff.mp h).symm⟩
  next hdeferred =>
    exact Or.inr ⟨Bool.eq_false_iff.mpr hdeferred, (modify_eq_ok_iff.mp h).symm⟩

theorem Request.run_cases {request : Request}
    (h : request.run options ids node before = (.ok (), after)) :
    (∃ order, request.order? options ids before node = some order ∧
      order.run node before = (.ok (), after)) ∨
      ∃ tag, request = .refer tag ∧ request.order? options ids before node = none ∧
        wait options node tag before = (.ok (), after) := by
  unfold Request.run at h
  split at h
  next order horder => exact Or.inl ⟨order, horder, h⟩
  next horder =>
    cases request with
    | unlisted => cases horder
    | write => cases horder
    | link => cases horder
    | refer tag => exact Or.inr ⟨tag, rfl, horder, h⟩

theorem Request.extends_run {request : Request}
    (h : request.run options ids node before = (.ok (), after)) :
    before.state.Extends [node] [] after.state := by
  rcases run_cases h with ⟨order, _, h⟩ | ⟨tag, _, _, h⟩
  · exact Order.extends_run h
  · rcases wait_cases h with ⟨_, rfl⟩ | ⟨_, rfl⟩
    · exact LiveScene.Extends.mono (.refl _) (by simp)
    · exact LiveScene.Extends.mono (.refl _) (by simp)

theorem extends_tagNode {tag : String}
    (h : tagNode LiveScene.host options node tag before = (.ok (), after)) :
    before.state.Extends [node] [] after.state := by
  unfold tagNode at h
  obtain ⟨_, mid, hattempt, h⟩ := bind_eq_ok_iff.mp h
  have hstretch : Stretch options [node] {} before mid :=
    stretch_attempt (fun _ _ hok => .of_setTag hok) hattempt
  rw [modify_eq_ok_iff] at h
  split at h
  next => exact h ▸ hstretch.state
  next => exact h ▸ hstretch.state

theorem Move.run_create {place : Nat} {spec : NodeSpec}
    (h : (Move.create place spec).run options ids before = (.ok (), after)) :
    ∃ node, Build.create LiveScene.host spec.type before = (.ok node, after) := by
  obtain ⟨node, mid, hcreate, h⟩ := bind_eq_ok_iff.mp h
  obtain ⟨-, rfl⟩ := pure_eq_ok_iff.mp h
  exact ⟨node, hcreate⟩

theorem Move.extends_run {move : Move} (h : move.run options ids before = (.ok (), after))
    (hunused : before.state.NextUnused move.makes.length) : ∃ touched made,
      before.state.Extends touched made after.state ∧ made.length = move.makes.length := by
  cases move with
  | create place spec =>
    obtain ⟨node, hcreate⟩ := run_create h
    have hstretch : Stretch options [] { made := [(node, spec.type)] } before after :=
      (stretch_create hunused hcreate).1
    exact ⟨_, _, hstretch.state, rfl⟩
  | ask place request => exact ⟨_, [], Request.extends_run h, rfl⟩
  | tag place label => exact ⟨_, [], extends_tagNode h, rfl⟩
  | root place =>
    obtain rfl := modify_eq_ok_iff.mp h
    exact ⟨[], [], .refl _, rfl⟩

theorem extends_runMoves {moves : List Move} (h : runMoves options ids moves before = (.ok (), after))
    (hunused : before.state.NextUnused (makes moves).length) : ∃ touched made,
      before.state.Extends touched made after.state ∧ made.length = (makes moves).length := by
  induction moves generalizing before with
  | nil =>
    obtain ⟨-, rfl⟩ := pure_eq_ok_iff.mp h
    exact ⟨[], [], .refl _, rfl⟩
  | cons move rest ih =>
    obtain ⟨_, mid, hmove, hrest⟩ := bind_eq_ok_iff.mp h
    rw [makes_cons, List.length_append] at hunused
    obtain ⟨touched, made, hfirst, hmade⟩ :=
      Move.extends_run hmove (hunused.mono (Nat.le_add_right ..))
    obtain ⟨touched', made', hlater, hmade'⟩ := ih hrest (hfirst.nextUnused (hmade ▸ hunused))
    refine ⟨_, _, hfirst.trans hlater, ?_⟩
    rw [List.length_append, hmade, hmade', makes_cons, List.length_append]

end Run

end Build

end ShaderMigration
