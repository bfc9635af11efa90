import ShaderMigration.Scene.Live

namespace ShaderMigration

theorem except_bind_eq_ok_iff {ε α β : Type} {x : Except ε α} {f : α → Except ε β} {b : β} :
    (x >>= f) = .ok b ↔ ∃ a, x = .ok a ∧ f a = .ok b := by
  cases x with
  | error e => simp [bind, Except.bind]
  | ok a => simp [bind, Except.bind]

theorem except_map_eq_ok_iff {ε α β : Type} {x : Except ε α} {f : α → β} {b : β} :
    x.map f = .ok b ↔ ∃ a, x = .ok a ∧ f a = b := by
  cases x with
  | error e => simp [Except.map]
  | ok a => simp [Except.map]

theorem except_map_eq_error_iff {ε α β : Type} {x : Except ε α} {f : α → β} {e : ε} :
    x.map f = .error e ↔ x = .error e := by
  cases x <;> simp [Except.map]

theorem except_bind_eq_error_iff {ε α β : Type} {x : Except ε α} {f : α → Except ε β} {e : ε} :
    (x >>= f) = .error e ↔ x = .error e ∨ ∃ a, x = .ok a ∧ f a = .error e := by
  cases x with
  | error e' => simp [bind, Except.bind]
  | ok a => simp [bind, Except.bind]

theorem except_mapError_eq_error_iff {ε ε' α : Type} {x : Except ε α} {f : ε → ε'} {e : ε'} :
    x.mapError f = .error e ↔ ∃ e', x = .error e' ∧ f e' = e := by
  cases x with
  | error e' =>
    constructor
    · intro h
      exact ⟨e', rfl, Except.error.inj h⟩
    · rintro ⟨e'', h, rfl⟩
      cases h
      rfl
  | ok a =>
    constructor
    · intro h
      cases h
    · rintro ⟨e', h, -⟩
      cases h

theorem except_mapError_eq_ok_iff {ε ε' α : Type} {x : Except ε α} {f : ε → ε'} {a : α} :
    x.mapError f = .ok a ↔ x = .ok a := by
  cases x with
  | error e =>
    constructor
    · intro h
      cases h
    · intro h
      cases h
  | ok b =>
    constructor
    · intro h
      exact congrArg Except.ok (Except.ok.inj h)
    · intro h
      exact congrArg Except.ok (Except.ok.inj h)

namespace Scene

variable {scene scene' : Scene} {node : NodeId} {attr : String}

theorem node_eq_ok_iff {found : SceneNode} :
    scene.node node = .ok found ↔ scene.nodes.find? node = some found := by
  unfold Scene.node
  split
  next h => simp [h]
  next h => simp [h]

theorem node_eq_error_iff {e : HostError} :
    scene.node node = .error e ↔ scene.nodes.find? node = none ∧ HostError.noSuchNode node = e := by
  unfold Scene.node
  split
  next h => simp [h]
  next h => simp [h]

theorem slot_eq_ok_iff {slot : Slot} :
    scene.slot node attr = .ok slot ↔ scene.slot? node attr = some slot := by
  unfold Scene.slot
  split
  next h => simp [h]
  next h => simp [h]

theorem slotForWriting_eq_ok_iff {slot : Slot} :
    scene.slotForWriting node attr = .ok slot ↔ scene.slot? node attr = some slot := by
  unfold slotForWriting
  split
  next h => simp [slot?, h]
  next => exact slot_eq_ok_iff

theorem connect_eq_ok_iff {source : Plug} :
    scene.connect source node attr = .ok scene' ↔
      source.node ∈ scene.nodes.keys ∧ source.node ≠ node ∧
        ∃ slot, scene.slot? node attr = some slot ∧
          scene' = scene.putSlot node attr { slot with input := some source } := by
  unfold connect
  rw [except_bind_eq_ok_iff, Table.mem_keys_iff]
  simp only [node_eq_ok_iff]
  by_cases hs : source.node = node
  · simp [hs, bind, Except.bind, throw, throwThe, MonadExceptOf.throw]
  · simp only [hs, if_false, except_bind_eq_ok_iff, slotForWriting_eq_ok_iff]
    constructor
    · intro hh
      obtain ⟨found, hf, slot, hslot, h⟩ := hh
      exact ⟨⟨found, hf⟩, hs, slot, hslot, (Except.ok.inj h).symm⟩
    · intro hh
      obtain ⟨⟨found, hf⟩, _, slot, hslot, rfl⟩ := hh
      exact ⟨found, hf, slot, hslot, rfl⟩

theorem set_connection (plug : Plug) :
    scene.set node attr (.connection plug) = scene.connect plug node attr := rfl

theorem set_static {value : Value} (hv : value.isConnection = false) :
    scene.set node attr value = (do
      scene.checkPlugs value
      let slot ← scene.slotForWriting node attr
      let fitted ← (fit slot.value value).mapError (.rejected node attr)
      return scene.putSlot node attr ⟨fitted, none⟩) := by
  cases value with
  | connection plug => simp [Value.isConnection] at hv
  | scalar payload => rfl
  | array items => rfl

theorem set_eq_ok_iff {value : Value} (hv : value.isConnection = false) :
    scene.set node attr value = .ok scene' ↔
      scene.checkPlugs value = .ok () ∧ ∃ slot fitted, scene.slot? node attr = some slot ∧
        fit slot.value value = .ok fitted ∧ scene' = scene.putSlot node attr ⟨fitted, none⟩ := by
  rw [set_static hv]
  simp only [except_bind_eq_ok_iff, slotForWriting_eq_ok_iff, except_mapError_eq_ok_iff]
  constructor
  · intro hh
    obtain ⟨_, hc, slot, hslot, fitted, hfit, h⟩ := hh
    exact ⟨hc, slot, fitted, hslot, hfit, (Except.ok.inj h).symm⟩
  · intro hh
    obtain ⟨hc, slot, fitted, hslot, hfit, rfl⟩ := hh
    exact ⟨(), hc, slot, hslot, fitted, hfit, rfl⟩

theorem setIndexed_eq_ok_iff {index : Nat} {value : Value} :
    scene.setIndexed node attr index value = .ok scene' ↔
      scene.checkPlugs value = .ok () ∧ ∃ slot items, scene.slot? node attr = some slot ∧
        slot.value = .array items ∧ index < items.length ∧
          scene' =
            scene.putSlot node attr { slot with value := .array (items.set index value) } := by
  unfold setIndexed
  simp only [except_bind_eq_ok_iff, slotForWriting_eq_ok_iff]
  constructor
  · intro hh
    obtain ⟨_, hc, slot, hslot, h⟩ := hh
    refine ⟨hc, slot, ?_⟩
    split at h
    next items hi =>
      split at h
      next hlt => exact ⟨items, hslot, hi, hlt, (Except.ok.inj h).symm⟩
      next => cases h
    next => cases h
  · intro hh
    obtain ⟨hc, slot, items, hslot, hi, hlt, rfl⟩ := hh
    refine ⟨(), hc, slot, hslot, ?_⟩
    simp [hi, hlt, pure, Except.pure]

theorem rename_eq_ok_iff {name : String} :
    scene.rename node name = .ok scene' ↔ node ∈ scene.nodes.keys ∧
      scene' =
        { scene with nodes := scene.nodes.modify node fun found => { found with name } } := by
  unfold rename
  rw [Table.mem_keys_iff]
  split
  next h => simp [h]
  next h => simp [h, eq_comm]

theorem setTag_eq_ok_iff {key text : String} :
    scene.setTag node key text = .ok scene' ↔ node ∈ scene.nodes.keys ∧
      scene' = { scene with
        nodes := scene.nodes.modify node fun found =>
          { found with tags := found.tags.insert key text } } := by
  unfold setTag
  rw [Table.mem_keys_iff]
  split
  next h => simp [h]
  next h => simp [h, eq_comm]

theorem create_eq_ok_iff {id : NodeId} {type : String} {secondary : Option String} :
    scene.create id type secondary = .ok scene' ↔ scene.schemas.contains type ∧
      scene' = scene.addNode id type (type ++ toString ((scene.nodesOfType type).length + 1))
        secondary := by
  unfold create
  split
  next h => simp [h, eq_comm]
  next h => simp [h]

theorem checkPlugs_eq_ok_iff {value : Value} :
    scene.checkPlugs value = .ok () ↔ ∀ plug ∈ value.plugs, plug.node ∈ scene.nodes.keys := by
  have h : scene.missingPlug? value.plugs = none ↔
      ∀ plug ∈ value.plugs, plug.node ∈ scene.nodes.keys := by
    simp [missingPlug?, Table.contains_iff]
  unfold checkPlugs
  rw [← h]
  split
  next hm => simp [hm]
  next hm => simp [hm]

theorem slot?_putSlot (slot : Slot) (other : NodeId) (otherAttr : String) :
    (scene.putSlot node attr slot).slot? other otherAttr =
      if other = node ∧ otherAttr = attr then (scene.slot? node attr).map fun _ => slot
      else scene.slot? other otherAttr := by
  unfold slot? putSlot
  simp only [Table.find?_modify]
  by_cases hn : other = node
  · subst hn
    cases scene.nodes.find? other with
    | none => simp
    | some found =>
      by_cases ha : otherAttr = attr <;> simp [Table.find?_modify, ha]
  · simp [hn]

theorem slot?_addNode (scene : Scene) (id : NodeId) (type name : String) (secondary : Option String)
    (node : NodeId) (attr : String) : (scene.addNode id type name secondary).slot? node attr =
      if node = id then (scene.freshSlots type).find? attr else scene.slot? node attr := by
  unfold slot? addNode
  by_cases hnode : node = id
  · simp [hnode]
  · simp [hnode, Table.find?_insert_of_ne]

theorem slot?_modify (f : SceneNode → SceneNode) (hf : ∀ found, (f found).attributes = found.attributes)
    (other : NodeId) (name : String) :
    slot? { scene with nodes := scene.nodes.modify node f } other name = scene.slot? other name := by
  simp only [slot?, Table.find?_modify]
  split
  next => cases scene.nodes.find? other <;> simp [hf]
  next => rfl

/-- One slot was replaced; its plugs were there before or are among those offered, which all name
nodes. -/
def Rewrites (scene scene' : Scene) (node : NodeId) (attr : String) (offered : List Plug) : Prop :=
  (∀ plug ∈ offered, plug.node ∈ scene.nodes.keys) ∧
    ∃ slot slot', scene.slot? node attr = some slot ∧ scene' = scene.putSlot node attr slot' ∧
      ∀ plug ∈ slot'.plugs, plug ∈ slot.plugs ∨ plug ∈ offered

theorem rewrites_of_connect {source : Plug} (h : scene.connect source node attr = .ok scene') :
    scene.Rewrites scene' node attr [source] := by
  obtain ⟨hnode, _, slot, hslot, rfl⟩ := connect_eq_ok_iff.mp h
  refine ⟨by simpa using hnode, slot, _, hslot, rfl, ?_⟩
  intro plug hp
  simp only [Slot.plugs, Option.toList_some, List.mem_append, List.mem_singleton] at hp ⊢
  rcases hp with hp | hp
  · exact Or.inl (Or.inl hp)
  · exact Or.inr hp

theorem plugs_of_fit {held value fitted : Value} (h : fit held value = .ok fitted) :
    ∀ plug ∈ fitted.plugs, plug ∈ value.plugs := by
  unfold fit at h
  split at h
  next =>
    split at h
    next => cases h; simp [Value.plugs]
    next => cases h
  next => cases h; exact fun _ hp => hp
  next => cases h

theorem rewrites_of_set {value : Value} (h : scene.set node attr value = .ok scene') :
    scene.Rewrites scene' node attr value.plugs := by
  cases hv : value.isConnection with
  | true =>
    obtain ⟨plug, rfl⟩ : ∃ plug, value = .connection plug := by
      cases value with
      | connection plug => exact ⟨plug, rfl⟩
      | scalar payload => simp [Value.isConnection] at hv
      | array items => simp [Value.isConnection] at hv
    simpa [Value.plugs] using rewrites_of_connect (set_connection plug ▸ h)
  | false =>
    obtain ⟨hcheck, slot, fitted, hslot, hfit, rfl⟩ := (set_eq_ok_iff hv).mp h
    refine ⟨checkPlugs_eq_ok_iff.mp hcheck, slot, _, hslot, rfl, ?_⟩
    intro plug hp
    exact Or.inr (plugs_of_fit hfit plug (by simpa [Slot.plugs] using hp))

theorem rewrites_of_setIndexed {index : Nat} {value : Value}
    (h : scene.setIndexed node attr index value = .ok scene') :
    scene.Rewrites scene' node attr value.plugs := by
  obtain ⟨hcheck, slot, items, hslot, hi, _, rfl⟩ := setIndexed_eq_ok_iff.mp h
  refine ⟨checkPlugs_eq_ok_iff.mp hcheck, slot, _, hslot, rfl, ?_⟩
  intro plug hp
  simp only [Slot.plugs, Value.plugs, Value.plugsOf_eq_flatMap, List.mem_append, List.mem_flatMap]
    at hp
  rcases hp with ⟨item, hm, hp⟩ | hp
  · rcases List.mem_or_eq_of_mem_set hm with hm | rfl
    · refine Or.inl (List.mem_append_left _ ?_)
      rw [hi, Value.plugs, Value.plugsOf_eq_flatMap]
      exact List.mem_flatMap.mpr ⟨item, hm, hp⟩
    · exact Or.inr hp
  · exact Or.inl (List.mem_append_right _ hp)

theorem keys_addNode {id : NodeId} (h : id ∉ scene.nodes.keys) (type name : String)
    (secondary : Option String) :
    (scene.addNode id type name secondary).nodes.keys = scene.nodes.keys ++ [id] := by
  simp [addNode, Table.keys_insert, h]

/-- The nodes of the first scene are in the second one, in the same places at the front, under the
same ids, of the same types and with the same attributes. -/
structure Grows (before after : Scene) : Prop where
  schemas : after.schemas = before.schemas
  roots : after.roots = before.roots
  keys : before.nodes.keys <+: after.nodes.keys
  node : ∀ {id found}, before.nodes.find? id = some found →
    ∃ found', after.nodes.find? id = some found' ∧ found'.id = found.id ∧
      found'.type = found.type ∧ found'.attributes.keys = found.attributes.keys

namespace Grows

theorem refl (scene : Scene) : scene.Grows scene :=
  ⟨rfl, rfl, List.prefix_refl _, fun h => ⟨_, h, rfl, rfl, rfl⟩⟩

theorem trans {first second third : Scene} (h : first.Grows second) (h' : second.Grows third) :
    first.Grows third := by
  refine ⟨h'.schemas.trans h.schemas, h'.roots.trans h.roots, h.keys.trans h'.keys, ?_⟩
  intro id found hf
  obtain ⟨found', hf', hid, htype, hattrs⟩ := h.node hf
  obtain ⟨found'', hf'', hid', htype', hattrs'⟩ := h'.node hf'
  exact ⟨found'', hf'', hid'.trans hid, htype'.trans htype, hattrs'.trans hattrs⟩

theorem mem_keys {before after : Scene} (h : before.Grows after) {id : NodeId}
    (hm : id ∈ before.nodes.keys) : id ∈ after.nodes.keys := h.keys.subset hm

theorem of_modify (f : SceneNode → SceneNode)
    (hf : ∀ found, (f found).id = found.id ∧ (f found).type = found.type ∧
      (f found).attributes.keys = found.attributes.keys) :
    scene.Grows { scene with nodes := scene.nodes.modify node f } := by
  refine ⟨rfl, rfl, by simp, ?_⟩
  intro id found h
  by_cases hid : id = node
  · subst hid
    exact ⟨f found, by simp [Table.find?_modify, h], hf found⟩
  · exact ⟨found, by simp [Table.find?_modify, hid, h], rfl, rfl, rfl⟩

theorem of_rewrites {offered : List Plug} (h : scene.Rewrites scene' node attr offered) :
    scene.Grows scene' := by
  obtain ⟨_, slot, slot', _, rfl, _⟩ := h
  exact of_modify _ fun found => ⟨rfl, rfl, Table.keys_modify _ _ _⟩

theorem of_rename {name : String} (h : scene.rename node name = .ok scene') :
    scene.Grows scene' := by
  obtain ⟨_, rfl⟩ := rename_eq_ok_iff.mp h
  exact of_modify _ fun found => ⟨rfl, rfl, rfl⟩

theorem of_addNode {id : NodeId} (h : id ∉ scene.nodes.keys) (type name : String)
    (secondary : Option String) : scene.Grows (scene.addNode id type name secondary) := by
  refine ⟨rfl, rfl, ?_, ?_⟩
  · rw [keys_addNode h]
    exact List.prefix_append _ _
  · intro other found hf
    have hne : other ≠ id := fun heq => h (heq ▸ Table.mem_keys_iff.mpr ⟨found, hf⟩)
    exact ⟨found, by simpa [addNode, Table.find?_insert_of_ne _ hne] using hf, rfl, rfl, rfl⟩

end Grows

/-- Every node is stored under its own id. -/
def Keyed (scene : Scene) : Prop :=
  ∀ id found, scene.nodes.find? id = some found → found.id = id

theorem keyed_iff : scene.Keyed ↔ ∀ entry ∈ scene.nodes.entries, entry.2.id = entry.1 :=
  ⟨fun h entry he => h entry.1 entry.2 (Table.mem_entries_iff.mp he),
    fun h id found hf => h (id, found) (Table.mem_entries_iff.mpr hf)⟩

instance (scene : Scene) : Decidable scene.Keyed := decidable_of_iff _ keyed_iff.symm

theorem Keyed.nodesOfType_eq (h : scene.Keyed) (type : String) : scene.nodesOfType type =
    (scene.nodes.entries.filter fun entry => entry.2.type == type).map Prod.fst := by
  have hid := keyed_iff.mp h
  unfold nodesOfType Table.values
  rw [List.filter_map, List.map_map]
  refine List.map_congr_left fun entry he => ?_
  exact hid entry (List.mem_filter.mp he).1

theorem Keyed.nodup_nodesOfType (h : scene.Keyed) (type : String) :
    (scene.nodesOfType type).Nodup := by
  rw [h.nodesOfType_eq]
  exact scene.nodes.nodup.sublist (List.filter_sublist.map Prod.fst)

theorem Keyed.mem_nodesOfType_iff (h : scene.Keyed) {type : String} {id : NodeId} :
    id ∈ scene.nodesOfType type ↔
      ∃ found, scene.nodes.find? id = some found ∧ found.type = type := by
  rw [h.nodesOfType_eq, List.mem_map]
  constructor
  · intro hh
    obtain ⟨entry, he, rfl⟩ := hh
    obtain ⟨hm, htype⟩ := List.mem_filter.mp he
    exact ⟨entry.2, Table.mem_entries_iff.mp hm, by simpa using htype⟩
  · intro hh
    obtain ⟨found, hf, htype⟩ := hh
    have hentry : (id, found) ∈ scene.nodes.entries.filter fun entry => entry.2.type == type :=
      List.mem_filter.mpr ⟨Table.mem_entries_iff.mpr hf, by simpa using htype⟩
    exact ⟨(id, found), hentry, rfl⟩

theorem Keyed.of_modify (h : scene.Keyed) (f : SceneNode → SceneNode)
    (hf : ∀ found, (f found).id = found.id) :
    Keyed { scene with nodes := scene.nodes.modify node f } := by
  intro id found hfound
  rw [Table.find?_modify] at hfound
  split at hfound
  next =>
    obtain ⟨found', hf', rfl⟩ := Option.map_eq_some_iff.mp hfound
    exact (hf found').trans (h id found' hf')
  next => exact h id found hfound

theorem Keyed.of_rewrites {offered : List Plug} (h : scene.Keyed)
    (hr : scene.Rewrites scene' node attr offered) : scene'.Keyed := by
  obtain ⟨_, slot, slot', _, rfl, _⟩ := hr
  exact h.of_modify _ fun _ => rfl

theorem Keyed.of_rename {name : String} (h : scene.Keyed)
    (hr : scene.rename node name = .ok scene') : scene'.Keyed := by
  obtain ⟨_, rfl⟩ := rename_eq_ok_iff.mp hr
  exact h.of_modify _ fun _ => rfl

theorem Keyed.of_addNode (h : scene.Keyed) (id : NodeId) (type name : String)
    (secondary : Option String) : (scene.addNode id type name secondary).Keyed := by
  intro other found hf
  by_cases hid : other = id
  · subst hid
    simp only [addNode, Table.find?_insert_self, Option.some.injEq] at hf
    exact hf ▸ rfl
  · exact h other found (by simpa [addNode, Table.find?_insert_of_ne _ hid] using hf)

end Scene

theorem LiveScene.edit_cases {α : Type} (result : α) (f : Scene → Except HostError Scene)
    (live : LiveScene) :
    (∃ scene, f live.scene = .ok scene ∧ edit result f live = (.ok result, { live with scene })) ∨
      ∃ cause, f live.scene = .error cause ∧ edit result f live = (.error cause, live) := by
  unfold edit
  cases f live.scene with
  | ok scene => exact Or.inl ⟨scene, rfl, rfl⟩
  | error cause => exact Or.inr ⟨cause, rfl, rfl⟩

theorem LiveScene.create_cases (type : String) (secondary : Option String) (live : LiveScene) :
    (∃ scene, live.scene.create live.supply.next type secondary = .ok scene ∧
        create type secondary live = (.ok live.supply.next, ⟨scene, live.supply.rest⟩)) ∨
      ∃ cause, create type secondary live = (.error cause, live) := by
  unfold create
  cases h : live.scene.create live.supply.next type secondary with
  | ok scene => exact Or.inl ⟨scene, rfl, by simp [h]⟩
  | error cause => exact Or.inr ⟨cause, by simp [h]⟩

end ShaderMigration
