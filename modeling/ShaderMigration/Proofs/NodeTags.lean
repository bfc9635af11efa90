import ShaderMigration.Proofs.ReplaySteps
import Mathlib.Data.List.Find

namespace ShaderMigration

theorem Tags.find?_eq (tags : Tags) (key : String) :
    tags.find? key = Entries.find? key tags.entries := by
  unfold Tags.find?
  induction tags.entries with
  | nil => rfl
  | cons entry rest ih =>
    rw [List.find?_cons, Entries.find?]
    by_cases h : entry.1 = key
    · simp [h]
    · rw [beq_false_of_ne h, if_neg h]
      exact ih

theorem Tags.find?_insert_self (tags : Tags) (key text : String) :
    (tags.insert key text).find? key = some text := by
  rw [find?_eq, insert, Entries.find?_enter, if_pos rfl]

namespace Scene

def tag? (scene : Scene) (node : NodeId) (key : String) : Option String :=
  (scene.nodes.find? node).bind fun found => found.tags.find? key

/-- The first node that carries a tag. -/
def carrier? (scene : Scene) (key tag : String) : Option NodeId :=
  scene.nodes.keys.find? fun node => scene.tag? node key == some tag

variable {scene scene' : Scene} {node other : NodeId} {attr key : String}

theorem toOption_reads_tag (scene : Scene) (node : NodeId) (key : String) :
    (scene.reads.tag node key).toOption.join = scene.tag? node key := by
  simp only [Scene.reads, Scene.node, tag?]
  cases scene.nodes.find? node <;> rfl

theorem tag?_modify (f : SceneNode → SceneNode) (hf : ∀ found, (f found).tags = found.tags)
    (node : NodeId) (key : String) :
    tag? { scene with nodes := scene.nodes.modify other f } node key = scene.tag? node key := by
  simp only [tag?, Table.find?_modify]
  split
  next => cases scene.nodes.find? node <;> simp [hf]
  next => rfl

theorem tag?_of_rewrites {offered : List Plug} (h : scene.Rewrites scene' other attr offered)
    (node : NodeId) (key : String) : scene'.tag? node key = scene.tag? node key := by
  obtain ⟨_, slot, slot', _, rfl, _⟩ := h
  exact tag?_modify (fun found => { found with
    attributes := found.attributes.modify attr fun _ => slot' }) (fun _ => rfl) node key

theorem tag?_addNode (type name : String) (secondary : Option String) (node : NodeId)
    (key : String) : (scene.addNode other type name secondary).tag? node key =
      if node = other then none else scene.tag? node key := by
  unfold tag? addNode
  by_cases hnode : node = other
  · subst hnode
    simp [Tags.find?, Tags.empty]
  · simp [hnode, Table.find?_insert_of_ne]

theorem tag?_of_setTag {text : String} (h : scene.setTag other key text = .ok scene')
    (node : NodeId) :
    scene'.tag? node key = if node = other then some text else scene.tag? node key := by
  obtain ⟨hmem, rfl⟩ := setTag_eq_ok_iff.mp h
  obtain ⟨found, hfound⟩ := Table.mem_keys_iff.mp hmem
  simp only [tag?, Table.find?_modify]
  by_cases hnode : node = other
  · subst hnode
    simp [hfound, Tags.find?_insert_self]
  · simp [hnode]

theorem carrier?_congr (hkeys : scene'.nodes.keys = scene.nodes.keys)
    (htags : ∀ node, scene'.tag? node key = scene.tag? node key) (tag : String) :
    scene'.carrier? key tag = scene.carrier? key tag := by
  simp only [carrier?, hkeys, htags]

end Scene

namespace Build

variable {options : BuildOptions} {start : LiveScene} {before after : Building LiveScene}

theorem Order.tag?_run {order : Order} {node : NodeId} (h : order.run node before = (.ok (), after))
    (other : NodeId) (key : String) :
    after.state.scene.tag? other key = before.state.scene.tag? other key := by
  rcases run_cases h with ⟨_, attr, _, scene, _, hok, rfl⟩ | ⟨cause, _, rfl⟩
  · exact Scene.tag?_of_rewrites (Scene.rewrites_of_set hok) other key
  · rfl

theorem Request.tag?_run {ids : Nat → NodeId} {request : Request} {node : NodeId}
    (h : request.run options ids node before = (.ok (), after)) (other : NodeId) (key : String) :
    after.state.scene.tag? other key = before.state.scene.tag? other key := by
  rcases run_cases h with ⟨order, _, h⟩ | ⟨tag, _, _, h⟩
  · exact Order.tag?_run h other key
  · rcases wait_cases h with ⟨_, rfl⟩ | ⟨_, rfl⟩
    · rfl
    · rfl

/-- In a scene where a reference looks everywhere, it finds the node of its tag in this build, or else the
first node that carries the tag; its own node is passed over. -/
theorem resolve?_of_document (hscope : options.tagScope = .document) (building : Building LiveScene)
    {tag : String} {consumer : NodeId}
    (hconsumer : building.state.scene.tag? consumer options.tagKey ≠ some tag) :
    resolve? options (LiveScene.host.reads building.state) building.output tag consumer =
      (building.output.tags.find? tag).or
        (building.state.scene.carrier? options.tagKey tag) := by
  have hsame : ∀ node, (node != consumer &&
      (building.state.scene.reads.tag node options.tagKey).toOption.join == some tag) =
        (building.state.scene.tag? node options.tagKey == some tag) := by
    intro node
    rw [Scene.toOption_reads_tag, Bool.and_eq_right_iff_imp]
    intro hcarries
    exact bne_iff_ne.mpr fun heq => hconsumer (heq ▸ beq_iff_eq.mp hcarries)
  unfold resolve?
  rw [hscope]
  cases building.output.tags.find? tag with
  | some source => rfl
  | none => exact congrArg (List.find? · _) (funext hsame)

/-- No node but that of the build can answer a reference to the tag. -/
def Settled (options : BuildOptions) (building : Building LiveScene) (tag : String) : Prop :=
  options.tagScope = .document → building.output.tags.contains tag = false →
    building.state.scene.carrier? options.tagKey tag = none

theorem resolve?_of_settled {building : Building LiveScene} {tag : String}
    (h : Settled options building tag) (consumer : NodeId) :
    resolve? options (LiveScene.host.reads building.state) building.output tag consumer =
      building.output.tags.find? tag := by
  unfold resolve?
  cases htag : building.output.tags.find? tag with
  | some source => rfl
  | none =>
    cases hscope : options.tagScope with
    | build => rfl
    | document =>
      have hnone := h hscope (by simp [Table.contains, htag])
      refine List.find?_eq_none.mpr fun node hnode hcarries => ?_
      have hreads : LiveScene.host.reads building.state = building.state.scene.reads := rfl
      rw [hreads, Scene.toOption_reads_tag, Bool.and_eq_true] at hcarries
      exact List.find?_eq_none.mp hnone node hnode hcarries.2

/-- What nodes carry after these moves. -/
structure Tagging (options : BuildOptions) (start : LiveScene) (done : List Move)
    (building : Building LiveScene) : Prop where
  older : ∀ node ∈ start.scene.nodes.keys,
    building.state.scene.tag? node options.tagKey = start.scene.tag? node options.tagKey
  newer : ∀ place < (makes done).length, ∀ label,
    building.state.scene.tag? (start.idAt place) options.tagKey = some label →
      .tag place label ∈ done

namespace Tagging

variable {done : List Move} {log : List (Nat × Call)} {move : Move}

theorem initial (start : LiveScene) : Tagging options start [] { state := start } where
  older := fun _ _ => rfl
  newer := by simp [makes]

/-- A move that makes and tags no node. -/
theorem of_same (h : Tagging options start done before) (hmakes : move.makes = [])
    (htags : ∀ node, after.state.scene.tag? node options.tagKey =
      before.state.scene.tag? node options.tagKey) :
    Tagging options start (done ++ [move]) after where
  older := fun node hnode => (htags node).trans (h.older node hnode)
  newer := by
    intro place hplace label hlabel
    rw [makes_append, makes_cons, hmakes] at hplace
    rw [htags] at hlabel
    exact List.mem_append_left _ (h.newer place (by simpa [makes] using hplace) label hlabel)

theorem step (h : Tagging options start done before) (hreplay : Replay start (makes done) log before)
    (hunused : start.NextUnused ((makes done).length + move.makes.length))
    (hfits : move.Fits (makes done))
    (hrun : move.run options start.idAt before = (.ok (), after)) :
    Tagging options start (done ++ [move]) after := by
  cases move with
  | ask place request => exact h.of_same rfl fun node => Request.tag?_run hrun node _
  | root place =>
    obtain rfl := modify_eq_ok_iff.mp hrun
    exact h.of_same rfl fun _ => rfl
  | create place spec =>
    obtain ⟨node, hcreate⟩ := Move.run_create hrun
    obtain ⟨_, name, rfl, rfl⟩ := create_cases hcreate
    have hnew := Replay.idAt_not_mem_idsWith hunused
    have htag : ∀ node, (before.state.scene.addNode before.state.supply.next spec.type name
        none).tag? node options.tagKey = if node = start.idAt (makes done).length then none
          else before.state.scene.tag? node options.tagKey := by
      intro node
      rw [hreplay.next_eq, Scene.tag?_addNode]
    refine ⟨fun node hnode => ?_, fun place hplace label hlabel => ?_⟩
    · have hold : node ≠ start.idAt (makes done).length := fun heq =>
        hnew (heq ▸ List.mem_append_left _ hnode)
      exact (htag node).trans (by rw [if_neg hold, h.older node hnode])
    · rw [makes_append, List.length_append] at hplace
      obtain ⟨hold, hlabel⟩ := Option.ite_none_left_eq_some.mp ((htag _).symm.trans hlabel)
      -- the new node is the last one, and it carries nothing
      have hplace' : place < (makes done).length :=
        Nat.lt_of_le_of_ne (Nat.lt_succ_iff.mp hplace) fun heq => hold (heq ▸ rfl)
      exact List.mem_append_left _ (h.newer place hplace' label hlabel)
  | tag place label =>
    obtain ⟨scene, hscene, rfl⟩ := tagNode_cases (hreplay.mem_keys_idAt hfits) hrun
    have htag := Scene.tag?_of_setTag hscene
    refine ⟨fun node hnode => ?_, fun other hother found hfound => ?_⟩
    · have hold : node ≠ start.idAt place := fun heq => hreplay.not_mem_idAt hfits (heq ▸ hnode)
      rw [htag, if_neg hold, h.older node hnode]
    · rw [makes_append, List.length_append] at hother
      rw [htag] at hfound
      by_cases heq : start.idAt other = start.idAt place
      · rw [if_pos heq] at hfound
        obtain rfl := hreplay.idAt_inj hother hfits heq
        obtain rfl := Option.some.inj hfound
        exact List.mem_append_right _ (List.mem_singleton.mpr rfl)
      · rw [if_neg heq] at hfound
        exact List.mem_append_left _ (h.newer other hother found hfound)

/-- A tag that is not set by these moves is carried by older nodes only. -/
theorem carrier?_eq (h : Tagging options start done before) (hreplay : Replay start (makes done) log before)
    {tag : String} (htag : ∀ place, .tag place tag ∉ done) :
    before.state.scene.carrier? options.tagKey tag =
      start.scene.carrier? options.tagKey tag := by
  have hnew : ((List.range (makes done).length).map start.idAt).find?
      (fun node => before.state.scene.tag? node options.tagKey == some tag) = none := by
    refine List.find?_eq_none.mpr fun node hnode hcarries => ?_
    obtain ⟨place, hplace, rfl⟩ := List.mem_map.mp hnode
    exact htag place (h.newer place (List.mem_range.mp hplace) tag (beq_iff_eq.mp hcarries))
  unfold Scene.carrier?
  rw [hreplay.keys, idsWith, List.find?_append, hnew, Option.or_none]
  exact List.find?_congr fun node hnode => by rw [h.older node hnode]

end Tagging

end Build

end ShaderMigration
