import ShaderMigration.Proofs.ArrayBridges
import ShaderMigration.Proofs.AtomicActions
import ShaderMigration.Proofs.SlotOverwrites
import ShaderMigration.Scene.InPlace

namespace ShaderMigration

open ShaderMigration.Action (Looks Succeeds Atomic)

theorem Entries.modify_put {κ α : Type} [DecidableEq κ] (key : κ) (value : α) (f : α → α)
    (entries : List (κ × α)) :
    Entries.modify key f (Entries.put key value entries) = Entries.put key (f value) entries := by
  induction entries with
  | nil => simp [Entries.put, Entries.modify]
  | cons entry rest ih =>
    obtain ⟨k, a⟩ := entry
    by_cases hk : k = key <;> simp [Entries.put, Entries.modify, hk, ih]

theorem Table.modify_insert {κ α : Type} [DecidableEq κ] (table : Table κ α) (key : κ) (value : α)
    (f : α → α) : (table.insert key value).modify key f = table.insert key (f value) :=
  Table.ext (Entries.modify_put key value f table.entries)

namespace LiveScene.InPlace

variable {α β : Type} {node : NodeId} {attr : String} {live : LiveScene}

theorem looks_look (f : Scene → Except HostError α) : Looks (look f) := fun _ => rfl

theorem succeeds_change (f : Scene → Scene) : Succeeds (change f) := fun _ => ⟨(), rfl⟩

theorem succeeds_changeSlot (node : NodeId) (attr : String) (f : Slot → Slot) :
    Succeeds (changeSlot node attr f) := succeeds_change _

theorem succeeds_add (type name : String) : Succeeds (add type name) := fun _ => ⟨_, rfl⟩

mutual

theorem looks_checkPlugs : ∀ value : Value, Looks (checkPlugs value)
  | .scalar _ => Action.looks_pure ()
  | .connection _ => (looks_look _).bind fun _ => Action.looks_pure ()
  | .array items => looks_checkPlugsOf items

theorem looks_checkPlugsOf : ∀ items : List Value, Looks (checkPlugsOf items)
  | [] => Action.looks_pure ()
  | item :: rest => (looks_checkPlugs item).bind fun _ => looks_checkPlugsOf rest

end

theorem atomic_connect (source : Plug) (node : NodeId) (attr : String) :
    Atomic (connect source node attr) := by
  refine (looks_look _).atomic_bind fun _ => ?_
  split
  next => exact Action.atomic_throw _
  next => exact (looks_look _).atomic_bind fun _ => (succeeds_change _).atomic

theorem atomic_store (node : NodeId) (attr : String) (value : Value) :
    Atomic (store node attr value) :=
  (looks_checkPlugs value).atomic_bind fun _ =>
    (looks_look _).atomic_bind fun _ =>
      (looks_look _).atomic_bind fun _ =>
        ((succeeds_changeSlot _ _ _).bind fun _ => succeeds_changeSlot _ _ _).atomic

theorem atomic_setIndexed (node : NodeId) (attr : String) (index : Nat) (value : Value) :
    Atomic (setIndexed node attr index value) := by
  refine (looks_checkPlugs value).atomic_bind fun _ => (looks_look _).atomic_bind fun slot => ?_
  split
  next =>
    split
    next => exact (succeeds_change _).atomic
    next => exact Action.atomic_throw _
  next => exact Action.atomic_throw _

theorem atomic_create (type : String) (secondary : Option String) :
    Atomic (create type secondary) := by
  refine (looks_look _).atomic_bind fun declared => ?_
  split
  next => exact Action.atomic_throw _
  next =>
    refine (looks_look _).atomic_bind fun count => Succeeds.atomic ?_
    exact (succeeds_add _ _).bind fun id =>
      (succeeds_change _).bind fun _ => Action.succeeds_pure id

theorem atomic_host : host.Atomic where
  rename node name := (looks_look _).atomic_bind fun _ =>
    ((succeeds_change _).bind fun _ => Action.succeeds_pure name).atomic
  create := atomic_create
  set node attr value := by
    cases value with
    | connection plug => exact atomic_connect plug node attr
    | scalar | array => exact atomic_store node attr _
  connect := atomic_connect
  setIndexed := atomic_setIndexed
  setTag node key text := (looks_look _).atomic_bind fun _ => (succeeds_change _).atomic

/-- After the same look it is enough that two operations go on alike where it succeeds. -/
theorem look_bind_congr {f : Scene → Except HostError α} {next next' : α → Action LiveScene β}
    (h : ∀ result, f live.scene = .ok result → next result live = next' result live) :
    (look f >>= next) live = (look f >>= next') live := by
  rw [Action.bind_apply, Action.bind_apply, look]
  cases hlook : f live.scene with
  | error cause => rfl
  | ok result => exact h result hlook

/-- An edit that begins with a look looks first. -/
theorem edit_bind (result : β) (f : Scene → Except HostError α)
    (g : Scene → α → Except HostError Scene) :
    edit result (fun scene => f scene >>= g scene) =
      look f >>= fun found => edit result fun scene => g scene found := by
  funext live
  rw [Action.bind_apply, look]
  cases hf : f live.scene <;> simp [edit, hf, bind, Except.bind]

theorem changeSlot_apply {slot : Slot} (hslot : live.scene.slot? node attr = some slot)
    (f : Slot → Slot) :
    changeSlot node attr f live =
      (.ok (), { live with scene := live.scene.putSlot node attr (f slot) }) := by
  have hnodes : (live.scene.nodes.modify node fun found =>
      { found with attributes := found.attributes.modify attr f }) =
        live.scene.nodes.modify node fun found =>
          { found with attributes := found.attributes.modify attr fun _ => f slot } := by
    refine Table.modify_congr fun found hfound => ?_
    have hheld : found.attributes.find? attr = some slot := by
      simpa [Scene.slot?, hfound] using hslot
    have hattributes : found.attributes.modify attr f = found.attributes.modify attr fun _ => f slot :=
      Table.modify_congr fun held hh => by rw [Option.some.inj (hh.symm.trans hheld)]
    rw [hattributes]
  unfold changeSlot changeNode change Scene.putSlot
  dsimp only
  rw [hnodes]

theorem putSlot_putSlot (scene : Scene) (node : NodeId) (attr : String) (first second : Slot) :
    (scene.putSlot node attr first).putSlot node attr second = scene.putSlot node attr second := by
  simp only [Scene.putSlot, Table.modify_modify, Function.comp_def]

theorem connect_eq (source : Plug) (node : NodeId) (attr : String) :
    connect source node attr = LiveScene.host.connect source node attr := by
  funext live
  change _ = edit () (fun scene => scene.connect source node attr) live
  unfold connect Scene.connect
  rw [edit_bind]
  refine look_bind_congr fun found _ => ?_
  by_cases hself : source.node = node
  · simp only [hself, if_true]
    rfl
  · simp only [hself, if_false]
    rw [edit_bind]
    refine look_bind_congr fun slot hslot => ?_
    rw [changeSlot_apply (Scene.slotForWriting_eq_ok_iff.mp hslot)]
    rfl

theorem look_bind (f : Scene → Except HostError α) (g : α → Scene → Except HostError β) :
    look f >>= (fun found => look (g found)) =
      look fun scene => f scene >>= fun found => g found scene := by
  funext live
  rw [Action.bind_apply, look, look]
  cases f live.scene <;> simp [look, bind, Except.bind]

theorem checkPlugs_connection (scene : Scene) (plug : Plug) :
    scene.checkPlugs (.connection plug) = scene.node plug.node >>= fun _ => .ok () := by
  cases hfind : scene.nodes.find? plug.node <;>
    simp [Scene.checkPlugs, Scene.missingPlug?, Scene.node, Value.plugs, Table.contains, hfind, bind,
      Except.bind]

theorem missingPlug?_append (scene : Scene) (first second : List Plug) :
    scene.missingPlug? (first ++ second) =
      (scene.missingPlug? first).or (scene.missingPlug? second) := by
  simp [Scene.missingPlug?, List.find?_append, Option.map_or]

theorem checkPlugs_cons (scene : Scene) (item : Value) (rest : List Value) :
    scene.checkPlugs (.array (item :: rest)) =
      scene.checkPlugs item >>= fun _ => scene.checkPlugs (.array rest) := by
  have hplugs : (Value.array (item :: rest)).plugs = item.plugs ++ (Value.array rest).plugs := rfl
  cases hitem : scene.missingPlug? item.plugs <;>
    simp [Scene.checkPlugs, hplugs, missingPlug?_append, hitem, bind, Except.bind]

mutual

theorem checkPlugs_eq : ∀ value : Value, checkPlugs value = look fun scene => scene.checkPlugs value
  | .scalar _ => rfl
  | .connection plug => by
    simp only [checkPlugs_connection]
    exact look_bind (fun scene => scene.node plug.node) fun _ _ => .ok ()
  | .array items => checkPlugsOf_eq items

theorem checkPlugsOf_eq : ∀ items : List Value,
    checkPlugsOf items = look fun scene => scene.checkPlugs (.array items)
  | [] => rfl
  | item :: rest => by
    rw [checkPlugsOf, checkPlugs_eq item, checkPlugsOf_eq rest, look_bind]
    simp only [checkPlugs_cons]

end

theorem store_eq {value : Value} (h : value.isConnection = false) (node : NodeId) (attr : String) :
    store node attr value = LiveScene.host.set node attr value := by
  funext live
  change _ = edit () (fun scene => scene.set node attr value) live
  simp only [Scene.set_static h]
  unfold store
  rw [checkPlugs_eq, edit_bind]
  refine look_bind_congr fun _ _ => ?_
  rw [edit_bind]
  refine look_bind_congr fun slot hslot => ?_
  rw [edit_bind]
  refine look_bind_congr fun fitted _ => ?_
  have hheld := Scene.slotForWriting_eq_ok_iff.mp hslot
  -- the second change finds the slot as the first one left it
  have hstored : (live.scene.putSlot node attr { slot with value := fitted }).slot? node attr =
      some { slot with value := fitted } := by
    rw [Scene.slot?_putSlot, if_pos ⟨rfl, rfl⟩, hheld]
    rfl
  rw [Action.bind_apply, changeSlot_apply hheld]
  change changeSlot node attr _ { live with scene := _ } = _
  rw [changeSlot_apply hstored, putSlot_putSlot]
  rfl

theorem set_eq (node : NodeId) (attr : String) (value : Value) :
    set node attr value = LiveScene.host.set node attr value := by
  cases value with
  | connection plug => exact connect_eq plug node attr
  | scalar payload => exact store_eq rfl node attr
  | array items => exact store_eq rfl node attr

theorem setIndexed_eq (node : NodeId) (attr : String) (index : Nat) (value : Value) :
    setIndexed node attr index value = LiveScene.host.setIndexed node attr index value := by
  funext live
  change _ = edit () (fun scene => scene.setIndexed node attr index value) live
  unfold setIndexed Scene.setIndexed
  rw [checkPlugs_eq, edit_bind]
  refine look_bind_congr fun _ _ => ?_
  rw [edit_bind]
  refine look_bind_congr fun slot hslot => ?_
  cases hstored : slot.value with
  | scalar | connection => rfl
  | array items =>
    by_cases hindex : index < items.length
    · simp only [hindex, if_true]
      rw [changeSlot_apply (Scene.slotForWriting_eq_ok_iff.mp hslot), hstored]
      rfl
    · simp only [hindex, if_false]
      rfl

/-- An operation that looks for a node and then changes it is an edit. -/
theorem look_node_bind (node : NodeId) (f : SceneNode → SceneNode) (result : α) :
    (look (fun scene => scene.node node) >>= fun _ => changeNode node f >>= fun _ => pure result) =
      edit result fun scene => scene.node node >>= fun _ =>
        .ok { scene with nodes := scene.nodes.modify node f } := by
  rw [edit_bind]
  rfl

theorem rename_eq (node : NodeId) (name : String) :
    rename node name = LiveScene.host.rename node name := by
  change _ = edit name fun scene => scene.rename node name
  refine (look_node_bind node _ name).trans ?_
  congr 1
  funext scene
  unfold Scene.rename Scene.node
  cases scene.nodes.find? node <;> rfl

theorem setTag_eq (node : NodeId) (key text : String) :
    setTag node key text = LiveScene.host.setTag node key text := by
  change _ = edit () fun scene => scene.setTag node key text
  refine (look_node_bind node _ ()).trans ?_
  congr 1
  funext scene
  unfold Scene.setTag Scene.node
  cases scene.nodes.find? node <;> rfl

theorem addNode_modify_secondary (scene : Scene) (id : NodeId) (type name : String)
    (secondary : Option String) :
    { scene.addNode id type name with
        nodes := (scene.addNode id type name).nodes.modify id fun found => { found with secondary } } =
      scene.addNode id type name secondary :=
  congrArg (fun nodes => { scene with nodes }) (Table.modify_insert ..)

theorem create_eq (type : String) (secondary : Option String) :
    create type secondary = LiveScene.host.create type secondary := by
  funext live
  change _ = LiveScene.create type secondary live
  unfold create LiveScene.create Scene.create
  rw [Action.bind_apply, look]
  cases hdeclared : live.scene.schemas.contains type with
  | false => rfl
  | true =>
    exact congrArg (fun scene => (Except.ok live.supply.next, (⟨scene, live.supply.rest⟩ : LiveScene)))
      (addNode_modify_secondary ..)

/-- Step by step and in place, the operations of the host do the same. -/
theorem host_eq : host = LiveScene.host := by
  have hrename : rename = LiveScene.host.rename := funext₂ rename_eq
  have hcreate : create = LiveScene.host.create := funext₂ create_eq
  have hset : set = LiveScene.host.set := funext₃ set_eq
  have hconnect : connect = LiveScene.host.connect := funext₃ connect_eq
  have hsetIndexed : setIndexed = LiveScene.host.setIndexed := by
    funext node attr index value
    exact setIndexed_eq node attr index value
  have hsetTag : setTag = LiveScene.host.setTag := funext₃ setTag_eq
  unfold host
  rw [hrename, hcreate, hset, hconnect, hsetIndexed, hsetTag]
  rfl

end LiveScene.InPlace

namespace LiveScene

theorem atomic_host : LiveScene.host.Atomic := InPlace.host_eq ▸ InPlace.atomic_host

/-- A call that fails leaves the scene as it was, also when an array slot is written by way of a copy
of the array.  The operations of the host do what they do step by step and in place. -/
theorem after_eq_of_failure? (live : LiveScene) (call : HostCall) (cause : HostError) :
    InPlace.host = host ∧
      (host.failure? live call = some cause → host.after live call = live) ∧
      (hostByCopy.failure? live call = some cause → hostByCopy.after live call = live) :=
  ⟨InPlace.host_eq, atomic_host.after_eq, atomic_host.byCopy.after_eq⟩

/-- Puts an array with a plug to a missing node into a slot of the array of the mesh. -/
def burying : HostCall :=
  .setIndexed (.ofNat 1) "shaders" 0
    (.array [.float 0.0, .array [.connection ⟨.ofNat 2, none⟩, .connection ⟨.ofNat 9, none⟩]])

theorem burying_changes_nothing :
    host.failure? twiceShaded burying = some (.noSuchNode (.ofNat 9)) ∧
      hostByCopy.failure? twiceShaded burying = some (.noSuchNode (.ofNat 9)) ∧
      host.after twiceShaded burying = twiceShaded ∧
      hostByCopy.after twiceShaded burying = twiceShaded := by
  have hown : host.failure? twiceShaded burying = some (.noSuchNode (.ofNat 9)) := by decide
  have hcopy : hostByCopy.failure? twiceShaded burying = some (.noSuchNode (.ofNat 9)) := by decide
  obtain ⟨-, howned, hcopied⟩ := after_eq_of_failure? twiceShaded burying (.noSuchNode (.ofNat 9))
  exact ⟨hown, hcopy, howned hown, hcopied hcopy⟩

end LiveScene

end ShaderMigration
