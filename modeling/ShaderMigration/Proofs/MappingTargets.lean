import ShaderMigration.Proofs.MappingAttempts
import ShaderMigration.Proofs.MappingInvariant
import ShaderMigration.Proofs.SceneFrame

namespace ShaderMigration

namespace Scene

/-- Only the node was written to, and none of the named attributes of it. -/
structure Spares (node : NodeId) (names : List String) (before after : Scene) : Prop where
  changes : before.ChangesOnly node after
  slots : ∀ name ∈ names, after.slot? node name = before.slot? node name

variable {scene scene' before mid after : Scene} {node : NodeId} {attr : String}
  {names : List String}

theorem Spares.refl (node : NodeId) (names : List String) (scene : Scene) :
    scene.Spares node names scene := ⟨.refl node scene, fun _ _ => rfl⟩

theorem Spares.trans (h : before.Spares node names mid) (h' : mid.Spares node names after) :
    before.Spares node names after :=
  ⟨h.changes.trans h'.changes, fun name hm => (h'.slots name hm).trans (h.slots name hm)⟩

theorem Spares.mono {fewer : List String} (h : before.Spares node names after)
    (hsubset : ∀ name ∈ fewer, name ∈ names) : before.Spares node fewer after :=
  ⟨h.changes, fun name hm => h.slots name (hsubset name hm)⟩

theorem Spares.of_rewrites {offered : List Plug} (h : scene.Rewrites scene' node attr offered)
    (hattr : attr ∉ names) : scene.Spares node names scene' := by
  refine ⟨.of_rewrites h, fun name hm => ?_⟩
  obtain ⟨_, slot, slot', _, rfl, _⟩ := h
  rw [slot?_putSlot, if_neg]
  exact fun hh => hattr (hh.2 ▸ hm)

end Scene

namespace LiveScene

variable {live mid later : LiveScene} {node : NodeId} {attr : String} {names : List String}

/-- The scene of a state is replaced by one in which the named attributes of the node are as before,
and everything else but the node. -/
def WritesBeside (node : NodeId) (names : List String) (live later : LiveScene) : Prop :=
  ∃ scene, later = { live with scene } ∧ live.scene.Spares node names scene

theorem WritesBeside.refl (node : NodeId) (names : List String) (live : LiveScene) :
    live.WritesBeside node names live := ⟨live.scene, rfl, .refl node names live.scene⟩

theorem WritesBeside.trans (h : live.WritesBeside node names mid)
    (h' : mid.WritesBeside node names later) : live.WritesBeside node names later := by
  obtain ⟨scene, rfl, hfirst⟩ := h
  obtain ⟨scene', rfl, hsecond⟩ := h'
  exact ⟨scene', rfl, hfirst.trans hsecond⟩

theorem writesBeside_edit {f : Scene → Except HostError Scene} {offered : List Plug}
    (hf : ∀ scene', f live.scene = .ok scene' → live.scene.Rewrites scene' node attr offered)
    (hattr : attr ∉ names) : live.WritesBeside node names (edit () f live).2 := by
  rcases edit_cases () f live with ⟨scene', hok, heq⟩ | ⟨cause, _, heq⟩
  · rw [heq]
    exact ⟨scene', rfl, .of_rewrites (hf scene' hok) hattr⟩
  · rw [heq]
    exact .refl node names live

theorem writesBeside_connect (source : Plug) (hattr : attr ∉ names) :
    live.WritesBeside node names (host.connect source node attr live).2 :=
  writesBeside_edit (fun _ hok => Scene.rewrites_of_connect hok) hattr

theorem writesBeside_set (value : Value) (hattr : attr ∉ names) :
    live.WritesBeside node names (host.set node attr value live).2 :=
  writesBeside_edit (fun _ hok => Scene.rewrites_of_set hok) hattr

end LiveScene

namespace Mapping

variable (old new : NodeId) {names : List String}

theorem writesBeside_connectAll (plugs : List Plug) {target : String} (htarget : target ∉ names)
    (live : LiveScene) :
    live.WritesBeside new names (connectAll LiveScene.host new target plugs live).2 := by
  induction plugs generalizing live with
  | nil => exact .refl new names live
  | cons plug rest ih =>
    have hfirst : live.WritesBeside new names (LiveScene.host.connect plug new target live).2 :=
      LiveScene.writesBeside_connect plug htarget
    rw [connectAll, action_bind]
    split
    next later heq =>
      rw [heq] at hfirst
      exact hfirst.trans (ih later)
    next later heq =>
      rw [heq] at hfirst
      exact hfirst

theorem writesBeside_write (read : Reading) (pairing : Pairing) (htarget : pairing.target ∉ names)
    (live : LiveScene) :
    live.WritesBeside new names (write LiveScene.host old new read pairing live).2 := by
  unfold write
  cases pairing.converter with
  | some converter =>
    dsimp only
    unfold computeTarget
    split
    next => exact .refl new names live
    next value _ => exact LiveScene.writesBeside_set value htarget
  | none =>
    cases read.source with
    | error cause => exact .refl new names live
    | ok source =>
      cases source with
      | live plugs => exact writesBeside_connectAll new plugs htarget live
      | stored value => exact LiveScene.writesBeside_set value htarget

theorem writesBeside_tryPairings {read : Reading} {pairings : List Pairing}
    (htargets : ∀ pairing ∈ pairings, pairing.target ∉ names) (live : LiveScene) :
    live.WritesBeside new names (tryPairings LiveScene.host old new read pairings live).2 := by
  induction pairings generalizing live with
  | nil => exact .refl new names live
  | cons pairing rest ih =>
    rw [List.forall_mem_cons] at htargets
    rw [tryPairings_cons]
    exact (writesBeside_write old new read pairing htargets.1 live).trans (ih htargets.2 _)

/-- A mapping writes to the targets of the rules and beside them to nothing. -/
theorem writesBeside_tryRules {rules : List (String × AttributeRule)}
    (htargets : ∀ pairing ∈ pairingsOf rules, pairing.target ∉ names) (live : LiveScene) :
    live.WritesBeside new names (tryRules LiveScene.host old new rules live).2 := by
  induction rules generalizing live with
  | nil => exact .refl new names live
  | cons entry rest ih =>
    rw [pairingsOf_cons, List.forall_mem_append] at htargets
    rw [tryRules_cons]
    exact (writesBeside_tryPairings old new htargets.1 live).trans (ih htargets.2 _)

theorem tryRules_append (host : Host LiveScene) (first rest : List (String × AttributeRule))
    (live : LiveScene) :
    (tryRules host old new (first ++ rest) live).2 =
      (tryRules host old new rest (tryRules host old new first live).2).2 := by
  induction first generalizing live with
  | nil => rfl
  | cons entry first ih =>
    rw [List.cons_append, tryRules_cons, tryRules_cons]
    exact ih _

end Mapping

end ShaderMigration
