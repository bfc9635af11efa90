import ShaderMigration.Proofs.HostCalls
import ShaderMigration.Proofs.SceneFrame
import ShaderMigration.Proofs.WellFormedScenes

namespace ShaderMigration

namespace Scene

variable {scene scene' : Scene} {node : NodeId} {attr : String}

/-- No slot holds a plug of its own node, stored at any depth or live. -/
def SelfFree (scene : Scene) : Prop := ∀ node, ¬ scene.Feeds node node

def DefaultNames (scene : Scene) (type : String) (node : NodeId) : Prop :=
  ∃ schema, scene.schemas.find? type = some schema ∧
    ∃ name default, schema.attributes.find? name = some default ∧
      ∃ plug ∈ default.plugs, plug.node = node

theorem SelfFree.child_ne (h : scene.SelfFree) {edge : Edge} (hedge : edge ∈ scene.reads.edges node) :
    edge.child ≠ node := by
  intro heq
  have hfeeds : scene.Feeds node edge.child := feeds_of_mem_edges hedge
  exact h node (heq ▸ hfeeds)

theorem plugs_eq_of_fit {held value fitted : Value} (h : fit held value = .ok fitted) :
    fitted.plugs = value.plugs := by
  unfold fit at h
  split at h
  next =>
    split at h
    next =>
      cases h
      rfl
    next => cases h
  next =>
    cases h
    rfl
  next => cases h

theorem feeds_of_putSlot {old new : Slot} (hold : scene.slot? node attr = some old) {plug : Plug}
    (hplug : plug ∈ new.plugs) : (scene.putSlot node attr new).Feeds node plug.node :=
  ⟨attr, new, by simp [slot?_putSlot, hold], plug, hplug, rfl⟩

theorem feeds_of_set {value : Value} (h : scene.set node attr value = .ok scene') {plug : Plug}
    (hplug : plug ∈ value.plugs) : scene'.Feeds node plug.node := by
  have hstore : value.isConnection = false → scene'.Feeds node plug.node := by
    intro hv
    obtain ⟨_, slot, fitted, hslot, hfit, rfl⟩ := (set_eq_ok_iff hv).mp h
    exact feeds_of_putSlot hslot (List.mem_append_left _ (plugs_eq_of_fit hfit ▸ hplug))
  cases value with
  | connection source =>
    obtain ⟨_, _, slot, hslot, rfl⟩ := connect_eq_ok_iff.mp h
    obtain rfl : plug = source := by simpa [Value.plugs] using hplug
    exact feeds_of_putSlot hslot (List.mem_append_right _ (by simp))
  | scalar payload => exact hstore rfl
  | array items => exact hstore rfl

theorem feeds_of_setIndexed {index : Nat} {value : Value}
    (h : scene.setIndexed node attr index value = .ok scene') {plug : Plug}
    (hplug : plug ∈ value.plugs) : scene'.Feeds node plug.node := by
  obtain ⟨_, slot, items, hslot, _, hlt, rfl⟩ := setIndexed_eq_ok_iff.mp h
  refine feeds_of_putSlot hslot (List.mem_append_left _ ?_)
  rw [Value.plugs, Value.plugsOf_eq_flatMap]
  exact List.mem_flatMap.mpr ⟨value, List.mem_set hlt value, hplug⟩

theorem SelfFree.of_rewrites (h : scene.SelfFree) {offered : List Plug}
    (hr : scene.Rewrites scene' node attr offered) (hoffered : ∀ plug ∈ offered, plug.node ≠ node) :
    scene'.SelfFree := by
  intro other hself
  rcases feeds_of_rewrites hr hself with hold | ⟨rfl, plug, hplug, heq⟩
  · exact h other hold
  · exact hoffered plug hplug heq

theorem SelfFree.of_slots (h : scene.SelfFree)
    (hslots : ∀ node attr, scene'.slot? node attr = scene.slot? node attr) : scene'.SelfFree := by
  intro node hself
  obtain ⟨attr, slot, hslot, hplug⟩ := hself
  exact h node ⟨attr, slot, hslots node attr ▸ hslot, hplug⟩

theorem SelfFree.of_connect (h : scene.SelfFree) {source : Plug}
    (hok : scene.connect source node attr = .ok scene') : scene'.SelfFree :=
  h.of_rewrites (rewrites_of_connect hok) (by simpa using (connect_eq_ok_iff.mp hok).2.1)

theorem SelfFree.set_iff (h : scene.SelfFree) {value : Value}
    (hok : scene.set node attr value = .ok scene') :
    scene'.SelfFree ↔ ∀ plug ∈ value.plugs, plug.node ≠ node :=
  ⟨fun hfree _ hplug heq => hfree node (heq ▸ feeds_of_set hok hplug),
    h.of_rewrites (rewrites_of_set hok)⟩

theorem SelfFree.setIndexed_iff (h : scene.SelfFree) {index : Nat} {value : Value}
    (hok : scene.setIndexed node attr index value = .ok scene') :
    scene'.SelfFree ↔ ∀ plug ∈ value.plugs, plug.node ≠ node :=
  ⟨fun hfree _ hplug heq => hfree node (heq ▸ feeds_of_setIndexed hok hplug),
    h.of_rewrites (rewrites_of_setIndexed hok)⟩

theorem find?_freshSlots_iff {type : String} {slot : Slot} :
    (scene.freshSlots type).find? attr = some slot ↔
      ∃ schema, scene.schemas.find? type = some schema ∧
        ∃ default, schema.attributes.find? attr = some default ∧ slot = { value := default } := by
  unfold freshSlots
  constructor
  · intro h
    split at h
    next schema hschema =>
      rw [Table.find?_map] at h
      obtain ⟨default, hdefault, rfl⟩ := Option.map_eq_some_iff.mp h
      exact ⟨schema, hschema, default, hdefault, rfl⟩
    next => cases h
  · intro h
    obtain ⟨schema, hschema, default, hdefault, rfl⟩ := h
    simp only [hschema, Table.find?_map, hdefault, Option.map_some]

/-- A new node reads itself if a default names its id. -/
theorem SelfFree.addNode_iff (h : scene.SelfFree) (id : NodeId) (type name : String)
    (secondary : Option String) :
    (scene.addNode id type name secondary).SelfFree ↔ ¬ scene.DefaultNames type id := by
  constructor
  · intro hfree hnames
    obtain ⟨schema, hschema, attr, default, hdefault, plug, hplug, heq⟩ := hnames
    refine hfree id ⟨attr, { value := default }, ?_, plug, by simpa [Slot.plugs] using hplug, heq⟩
    rw [slot?_addNode, if_pos rfl]
    exact find?_freshSlots_iff.mpr ⟨schema, hschema, default, hdefault, rfl⟩
  · intro hnames other hself
    obtain ⟨attr, slot, hslot, plug, hplug, heq⟩ := hself
    rw [slot?_addNode] at hslot
    split at hslot
    next hid =>
      obtain ⟨schema, hschema, default, hdefault, rfl⟩ := find?_freshSlots_iff.mp hslot
      exact hnames ⟨schema, hschema, attr, default, hdefault, plug,
        by simpa [Slot.plugs] using hplug, heq.trans hid⟩
    next => exact h other ⟨attr, slot, hslot, plug, hplug, heq⟩

def selfRefusal (scene : Scene) (node : NodeId) (attr : String) : HostError :=
  if node ∈ scene.nodes.keys then .rejected node attr .selfConnection else .noSuchNode node

theorem connect_self (scene : Scene) (source : Plug) (attr : String) :
    scene.connect source source.node attr = .error (scene.selfRefusal source.node attr) := by
  have hmem : source.node ∈ scene.nodes.keys ↔ ∃ found, scene.nodes.find? source.node = some found :=
    Table.mem_keys_iff
  unfold connect Scene.node selfRefusal
  cases hfound : scene.nodes.find? source.node with
  | none => simp [hmem, hfound, bind, Except.bind]
  | some found => simp [hmem, hfound, bind, Except.bind, throw, throwThe, MonadExceptOf.throw]

end Scene

namespace LiveScene

/-- The call is carried out in this state, and stores a plug of the node that it writes to or makes. -/
def StoresOwnPlug (live : LiveScene) : HostCall → Prop
  | .set node attr value =>
    (∃ plug ∈ value.plugs, plug.node = node) ∧ ∃ scene, live.scene.set node attr value = .ok scene
  | .setIndexed node attr index value =>
    (∃ plug ∈ value.plugs, plug.node = node) ∧
      ∃ scene, live.scene.setIndexed node attr index value = .ok scene
  | .create type _ => live.scene.DefaultNames type live.supply.next
  | .connect .. => False
  | .rename .. => False
  | .setTag .. => False

variable {live : LiveScene}

theorem selfFree_edit (h : live.scene.SelfFree) {f : Scene → Except HostError Scene}
    (hf : ∀ scene, f live.scene = .ok scene → scene.SelfFree) {α : Type} {result : α} :
    (edit result f live).2.scene.SelfFree := by
  rcases edit_cases result f live with ⟨scene, hok, heq⟩ | ⟨cause, hcause, heq⟩
  · rw [heq]
    exact hf scene hok
  · rwa [heq]

theorem selfFree_edit_iff (h : live.scene.SelfFree) {f : Scene → Except HostError Scene} {own : Prop}
    (hf : ∀ scene, f live.scene = .ok scene → (scene.SelfFree ↔ ¬ own)) {α : Type} (result : α) :
    (edit result f live).2.scene.SelfFree ↔ ¬ (own ∧ ∃ scene, f live.scene = .ok scene) := by
  rcases edit_cases result f live with ⟨scene, hok, heq⟩ | ⟨cause, hcause, heq⟩
  · rw [heq, hf scene hok]
    simp [hok]
  · rw [heq]
    simp [hcause, h]

theorem selfFree_create_iff (h : live.scene.SelfFree) (type : String) (secondary : Option String) :
    (create type secondary live).2.scene.SelfFree ↔
      ¬ live.scene.DefaultNames type live.supply.next := by
  rw [create_eq]
  split
  next => exact h.addNode_iff _ _ _ _
  next hschema =>
    refine ⟨fun _ hnames => ?_, fun _ => h⟩
    obtain ⟨schema, hfound, _⟩ := hnames
    simp [Table.contains, hfound] at hschema

/-- One case for each call. -/
theorem selfFree_after_iff (h : live.scene.SelfFree) (call : HostCall) :
    (host.after live call).scene.SelfFree ↔ ¬ live.StoresOwnPlug call := by
  have hnone : ∀ {offered : List Plug} {node : NodeId},
      (∀ plug ∈ offered, plug.node ≠ node) ↔ ¬ ∃ plug ∈ offered, plug.node = node := by simp
  cases call with
  | rename node name =>
    refine iff_of_true (selfFree_edit h fun _ hok => ?_) id
    exact h.of_slots (Scene.slot?_of_rename hok)
  | create type secondary => exact selfFree_create_iff h type secondary
  | set node attr value =>
    exact selfFree_edit_iff h (fun _ hok => (h.set_iff hok).trans hnone) ()
  | connect source node attr =>
    exact iff_of_true (selfFree_edit h fun _ hok => h.of_connect hok) id
  | setIndexed node attr index value =>
    exact selfFree_edit_iff h (fun _ hok => (h.setIndexed_iff hok).trans hnone) ()
  | setTag node key text =>
    refine iff_of_true (selfFree_edit h fun _ hok => ?_) id
    obtain ⟨_, rfl⟩ := Scene.setTag_eq_ok_iff.mp hok
    exact h.of_slots (Scene.slot?_modify _ fun _ => rfl)

/-- Connections of a node to itself are refused.  As long as no call stores an own plug in another way,
no slot holds one, so that no walk starts with an edge back to its root; when a call does, one is
held. -/
theorem selfFree_run_iff (h : live.scene.SelfFree) (calls : List HostCall) :
    (∀ (later : LiveScene) (source : Plug) (attr : String),
      host.connect source source.node attr later =
          (.error (later.scene.selfRefusal source.node attr), later) ∧
        host.set source.node attr (.connection source) later =
          (.error (later.scene.selfRefusal source.node attr), later)) ∧
    ((∀ done, done <+: calls → (host.afterAll done live).scene.SelfFree) ↔
      ∀ done call, done ++ [call] <+: calls → ¬ (host.afterAll done live).StoresOwnPlug call) ∧
    ∀ done, (host.afterAll done live).scene.SelfFree →
      ∀ node, ∀ edge ∈ (host.afterAll done live).scene.reads.edges node, edge.child ≠ node := by
  have hafter : ∀ done call, host.afterAll (done ++ [call]) live =
      host.after (host.afterAll done live) call := by simp [Host.afterAll]
  refine ⟨fun later source attr => ?_, ⟨fun hfree done call hdone => ?_, fun hcalls done => ?_⟩,
    fun done hfree node edge hedge => hfree.child_ne hedge⟩
  · have hrefused : host.connect source source.node attr later =
        (.error (later.scene.selfRefusal source.node attr), later) := by
      simp [host, edit, Scene.connect_self]
    exact ⟨hrefused, hrefused⟩
  · have hbefore := hfree done ((List.prefix_append done [call]).trans hdone)
    exact (selfFree_after_iff hbefore call).mp (hafter done call ▸ hfree _ hdone)
  · induction done using List.reverseRecOn with
    | nil => exact fun _ => h
    | append_singleton done call ih =>
      intro hdone
      have hbefore := ih ((List.prefix_append done [call]).trans hdone)
      rw [hafter]
      exact (selfFree_after_iff hbefore call).mpr (hcalls done call hdone)

/-- A layer that holds one number so far, and a texture. -/
def emptyLayer : LiveScene where
  scene :=
    { schemas := {}
      nodes := .ofPairs
        [(.ofNat 1, ⟨.ofNat 1, "layer", none, "layer", .ofPairs
            [("base", ⟨.float 0.0, none⟩), ("layers", ⟨.array [.float 0.0], none⟩)], .empty⟩),
          (.ofNat 2, ⟨.ofNat 2, "file", none, "map", {}, .empty⟩)]
      roots := [.ofNat 1] }
  supply := ⟨fun n => .ofNat (n + 3), 0⟩

theorem emptyLayer_selfFree : emptyLayer.scene.SelfFree :=
  Scene.Acyclic.not_feeds_self (Scene.acyclic_of_rank (fun _ => 0) (by decide))

/-- Laying the texture into the layer, and trying to connect the layer to itself. -/
def layering : List HostCall :=
  [.connect ⟨.ofNat 1, none⟩ (.ofNat 1) "base",
    .setIndexed (.ofNat 1) "layers" 0 (.connection ⟨.ofNat 2, none⟩), .rename (.ofNat 1) "stack"]

theorem emptyLayer_layering :
    emptyLayer.scene.SelfFree ∧
      (∀ done, done <+: layering → (host.afterAll done emptyLayer).scene.SelfFree) ∧
      (host.connect ⟨.ofNat 1, none⟩ (.ofNat 1) "base" emptyLayer).1 =
        .error (.rejected (.ofNat 1) "base" .selfConnection) := by
  obtain ⟨hrefused, hrun, _⟩ := selfFree_run_iff emptyLayer_selfFree layering
  refine ⟨emptyLayer_selfFree, hrun.mpr fun done call hdone => ?_, ?_⟩
  · have hcall : call ∈ layering := hdone.subset (by simp)
    simp only [layering, List.mem_cons, List.not_mem_nil, or_false] at hcall
    rcases hcall with rfl | rfl | rfl
    · exact id
    · intro hstores
      obtain ⟨⟨plug, hplug, heq⟩, _⟩ := hstores
      obtain rfl : plug = ⟨.ofNat 2, none⟩ := by simpa [Value.plugs] using hplug
      exact absurd heq (by decide)
    · exact id
  · rw [(hrefused emptyLayer ⟨.ofNat 1, none⟩ "base").1, Scene.selfRefusal, if_pos (by decide)]

/-- The layer accepts an array with itself in it, and itself in its slot; then its walk has no end. -/
theorem emptyLayer_reads_itself :
    emptyLayer.scene.SelfFree ∧
      (∀ call ∈ ([.set (.ofNat 1) "layers" (.array [.connection ⟨.ofNat 1, none⟩]),
          .setIndexed (.ofNat 1) "layers" 0 (.connection ⟨.ofNat 1, none⟩)] : List HostCall),
        ¬ (host.afterAll [call] emptyLayer).scene.SelfFree ∧
          (host.afterAll [call] emptyLayer).scene.reads.walk? (.ofNat 1) = none) ∧
      (host.set (.ofNat 1) "layers" (.array [.connection ⟨.ofNat 1, none⟩]) emptyLayer).1 = .ok () ∧
      (host.setIndexed (.ofNat 1) "layers" 0 (.connection ⟨.ofNat 1, none⟩) emptyLayer).1 =
        .ok () := by
  refine ⟨emptyLayer_selfFree, fun call hcall => ?_, rfl, rfl⟩
  have hfeeds : ∀ call ∈ ([.set (.ofNat 1) "layers" (.array [.connection ⟨.ofNat 1, none⟩]),
      .setIndexed (.ofNat 1) "layers" 0 (.connection ⟨.ofNat 1, none⟩)] : List HostCall),
      (host.afterAll [call] emptyLayer).scene.Feeds (.ofNat 1) (.ofNat 1) ∧
        (host.afterAll [call] emptyLayer).scene.reads.walk? (.ofNat 1) = none := by
    decide +kernel
  exact ⟨fun hfree => hfree _ (hfeeds call hcall).1, (hfeeds call hcall).2⟩

end LiveScene

end ShaderMigration
