import ShaderMigration.Proofs.ArrayBridges

namespace ShaderMigration

/-- The kind of a value, as far as a slot keeps it. -/
inductive Shape where
  | scalar (kind : ScalarKind)
  | connection
  | array
deriving DecidableEq, Repr

def Value.shape : Value → Shape
  | .scalar payload => .scalar payload.kind
  | .connection _ => .connection
  | .array _ => .array

/-- The attributes in order, with the kinds of what is stored in them. -/
def SceneNode.shapes (node : SceneNode) : List (String × Shape) :=
  node.attributes.entries.map fun entry => (entry.1, entry.2.value.shape)

def Schema.shapes (schema : Schema) : List (String × Shape) :=
  schema.attributes.entries.map fun entry => (entry.1, entry.2.shape)

theorem Entries.map_modify {κ α β : Type} [DecidableEq κ] {key : κ} {old new : α}
    {entries : List (κ × α)} (f : α → β) (h : find? key entries = some old) (hf : f new = f old) :
    (modify key (fun _ => new) entries).map (fun entry => (entry.1, f entry.2)) =
      entries.map fun entry => (entry.1, f entry.2) := by
  induction entries with
  | nil => rfl
  | cons entry rest ih =>
    obtain ⟨k, a⟩ := entry
    by_cases hk : k = key
    · subst hk
      have ha : a = old := by simpa [find?] using h
      simp [modify, ha, hf]
    · simp only [find?, hk, if_false] at h
      simp [modify, hk, ih h]

namespace Scene

variable {scene scene' : Scene} {node : NodeId} {attr : String}

/-- Every plug in a default of a schema names a node. -/
def DefaultsPresent (scene : Scene) : Prop :=
  ∀ type schema, scene.schemas.find? type = some schema →
    ∀ name default, schema.attributes.find? name = some default →
      ∀ plug ∈ default.plugs, plug.node ∈ scene.nodes.keys

theorem defaultsPresent_iff : scene.DefaultsPresent ↔ ∀ entry ∈ scene.schemas.entries,
    ∀ default ∈ entry.2.attributes.entries, ∀ plug ∈ default.2.plugs,
      plug.node ∈ scene.nodes.keys := by
  constructor
  · intro h entry he default hd
    exact h _ _ (Table.mem_entries_iff.mp he) _ _ (Table.mem_entries_iff.mp hd)
  · intro h type schema hs name default hd
    exact h _ (Table.mem_entries_iff.mpr hs) _ (Table.mem_entries_iff.mpr hd)

/-- Nodes are stored under their own ids, and everything that should name a node does. -/
structure WellFormed (scene : Scene) : Prop where
  keyed : scene.Keyed
  plugs : scene.PlugsPresent
  defaults : scene.DefaultsPresent
  roots : ∀ root ∈ scene.roots, root ∈ scene.nodes.keys

theorem wellFormed_iff : scene.WellFormed ↔ scene.Keyed ∧ scene.PlugsPresent ∧
    (∀ entry ∈ scene.schemas.entries, ∀ default ∈ entry.2.attributes.entries,
      ∀ plug ∈ default.2.plugs, plug.node ∈ scene.nodes.keys) ∧
        ∀ root ∈ scene.roots, root ∈ scene.nodes.keys := by
  rw [← defaultsPresent_iff]
  exact ⟨fun h => ⟨h.keyed, h.plugs, h.defaults, h.roots⟩, fun h => ⟨h.1, h.2.1, h.2.2.1, h.2.2.2⟩⟩

instance (scene : Scene) : Decidable scene.WellFormed := decidable_of_iff _ wellFormed_iff.symm

/-- Nodes of the first scene are in the second one, in the same places at the front, with their types
and the shapes of their attributes; new nodes look as their schemas say. -/
structure KeepsShapes (before after : Scene) : Prop where
  schemas : after.schemas = before.schemas
  roots : after.roots = before.roots
  keys : before.nodes.keys <+: after.nodes.keys
  kept : ∀ {id found}, before.nodes.find? id = some found →
    ∃ found', after.nodes.find? id = some found' ∧ found'.type = found.type ∧
      found'.shapes = found.shapes
  created : ∀ {id found}, after.nodes.find? id = some found → id ∉ before.nodes.keys →
    ∃ schema, before.schemas.find? found.type = some schema ∧ found.shapes = schema.shapes

/-- One slot was replaced by one that stores a value of the same shape. -/
def Refits (scene scene' : Scene) (node : NodeId) (attr : String) : Prop :=
  ∃ slot slot', scene.slot? node attr = some slot ∧ scene' = scene.putSlot node attr slot' ∧
    slot'.value.shape = slot.value.shape

theorem shape_of_fit {held value fitted : Value} (h : fit held value = .ok fitted) :
    fitted.shape = held.shape := by
  unfold fit at h
  split at h
  next =>
    split at h
    next hcoerce =>
      cases h
      exact congrArg Shape.scalar (Scalar.kind_of_coerce? hcoerce)
    next => cases h
  next =>
    cases h
    rfl
  next => cases h

theorem refits_of_connect {source : Plug} (h : scene.connect source node attr = .ok scene') :
    scene.Refits scene' node attr := by
  obtain ⟨_, _, slot, hslot, rfl⟩ := connect_eq_ok_iff.mp h
  exact ⟨slot, _, hslot, rfl, rfl⟩

theorem refits_of_set {value : Value} (h : scene.set node attr value = .ok scene') :
    scene.Refits scene' node attr := by
  have hstore : value.isConnection = false → scene.Refits scene' node attr := by
    intro hv
    obtain ⟨_, slot, fitted, hslot, hfit, rfl⟩ := (set_eq_ok_iff hv).mp h
    exact ⟨slot, _, hslot, rfl, shape_of_fit hfit⟩
  cases value with
  | connection plug => exact refits_of_connect h
  | scalar payload => exact hstore rfl
  | array items => exact hstore rfl

theorem refits_of_setIndexed {index : Nat} {value : Value}
    (h : scene.setIndexed node attr index value = .ok scene') : scene.Refits scene' node attr := by
  obtain ⟨_, slot, items, hslot, hitems, _, rfl⟩ := setIndexed_eq_ok_iff.mp h
  refine ⟨slot, _, hslot, rfl, ?_⟩
  rw [hitems]
  rfl

theorem slot?_of_addNode {id other : NodeId} {type name : String} {secondary : Option String}
    {slot : Slot} (h : (scene.addNode id type name secondary).slot? other attr = some slot) :
    scene.slot? other attr = some slot ∨ ∃ schema, scene.schemas.find? type = some schema ∧
      ∃ default, schema.attributes.find? attr = some default ∧ slot = { value := default } := by
  rw [slot?_addNode] at h
  split at h
  next =>
    unfold freshSlots at h
    split at h
    next schema hschema =>
      rw [Table.find?_map] at h
      obtain ⟨default, hdefault, rfl⟩ := Option.map_eq_some_iff.mp h
      exact .inr ⟨schema, hschema, default, hdefault, rfl⟩
    next => cases h
  next => exact .inl h

namespace KeepsShapes

theorem refl (scene : Scene) : scene.KeepsShapes scene where
  schemas := rfl
  roots := rfl
  keys := List.prefix_refl _
  kept := fun h => ⟨_, h, rfl, rfl⟩
  created := fun h hnew => absurd (Table.mem_keys_iff.mpr ⟨_, h⟩) hnew

theorem trans {first second third : Scene} (h : first.KeepsShapes second)
    (h' : second.KeepsShapes third) : first.KeepsShapes third := by
  refine ⟨h'.schemas.trans h.schemas, h'.roots.trans h.roots, h.keys.trans h'.keys, ?_, ?_⟩
  · intro id found hfound
    obtain ⟨found', hf', htype, hshapes⟩ := h.kept hfound
    obtain ⟨found'', hf'', htype', hshapes'⟩ := h'.kept hf'
    exact ⟨found'', hf'', htype'.trans htype, hshapes'.trans hshapes⟩
  · intro id found hfound hnew
    by_cases hmid : id ∈ second.nodes.keys
    · -- made in the first stretch: it then looked as its schema says, and kept that
      obtain ⟨made, hmade⟩ := Table.mem_keys_iff.mp hmid
      obtain ⟨schema, hschema, hshapes⟩ := h.created hmade hnew
      obtain ⟨found', hf', htype', hshapes'⟩ := h'.kept hmade
      rw [Option.some.inj (hfound.symm.trans hf'), htype', hshapes']
      exact ⟨schema, hschema, hshapes⟩
    · exact h.schemas ▸ h'.created hfound hmid

theorem of_modify (f : SceneNode → SceneNode)
    (hf : ∀ found, scene.nodes.find? node = some found →
      (f found).type = found.type ∧ (f found).shapes = found.shapes) :
    scene.KeepsShapes { scene with nodes := scene.nodes.modify node f } where
  schemas := rfl
  roots := rfl
  keys := by simp
  kept := by
    intro id found h
    by_cases hid : id = node
    · subst hid
      exact ⟨f found, by simp [Table.find?_modify, h], hf found h⟩
    · exact ⟨found, by simp [Table.find?_modify, hid, h], rfl, rfl⟩
  created := by
    intro id found h hnew
    have hmem : id ∈ (scene.nodes.modify node f).keys := Table.mem_keys_iff.mpr ⟨found, h⟩
    rw [Table.keys_modify] at hmem
    exact absurd hmem hnew

theorem of_refits (h : scene.Refits scene' node attr) : scene.KeepsShapes scene' := by
  obtain ⟨slot, slot', hslot, rfl, hshape⟩ := h
  refine of_modify _ fun found hfound => ⟨rfl, ?_⟩
  have hheld : found.attributes.find? attr = some slot := by
    simpa [slot?, hfound] using hslot
  exact Entries.map_modify (fun slot => slot.value.shape) hheld hshape

theorem of_addNode {id : NodeId} {type : String} (hnew : id ∉ scene.nodes.keys)
    (hschema : scene.schemas.contains type) (name : String) (secondary : Option String) :
    scene.KeepsShapes (scene.addNode id type name secondary) := by
  refine ⟨rfl, rfl, ?_, ?_, ?_⟩
  · rw [keys_addNode hnew]
    exact List.prefix_append _ _
  · intro other found hf
    have hne : other ≠ id := fun heq => hnew (heq ▸ Table.mem_keys_iff.mpr ⟨found, hf⟩)
    exact ⟨found, by simpa [addNode, Table.find?_insert_of_ne _ hne] using hf, rfl, rfl⟩
  · intro other found hf hother
    obtain ⟨schema, hs⟩ := Option.isSome_iff_exists.mp hschema
    have hid : other = id := by
      have hmem : other ∈ (scene.addNode id type name secondary).nodes.keys :=
        Table.mem_keys_iff.mpr ⟨found, hf⟩
      rw [keys_addNode hnew, List.mem_append] at hmem
      exact List.mem_singleton.mp (hmem.resolve_left hother)
    subst hid
    simp only [addNode, Table.find?_insert_self, Option.some.injEq] at hf
    subst hf
    refine ⟨schema, hs, ?_⟩
    simp [SceneNode.shapes, Schema.shapes, freshSlots, hs, Table.map, Function.comp_def]

end KeepsShapes

namespace WellFormed

theorem of_rewrites {offered : List Plug} (h : scene.WellFormed)
    (hr : scene.Rewrites scene' node attr offered) : scene'.WellFormed := by
  have hgrows := Grows.of_rewrites hr
  refine ⟨h.keyed.of_rewrites hr, h.plugs.of_rewrites hr, ?_, ?_⟩
  · intro type schema hs name default hd plug hp
    rw [hgrows.schemas] at hs
    exact hgrows.mem_keys (h.defaults type schema hs name default hd plug hp)
  · intro root hroot
    rw [hgrows.roots] at hroot
    exact hgrows.mem_keys (h.roots root hroot)

theorem of_modify (h : scene.WellFormed) (f : SceneNode → SceneNode)
    (hf : ∀ found, (f found).id = found.id ∧ (f found).attributes = found.attributes) :
    WellFormed { scene with nodes := scene.nodes.modify node f } := by
  have hslots := @slot?_modify scene node f fun found => (hf found).2
  refine ⟨h.keyed.of_modify f fun found => (hf found).1, ?_, ?_, ?_⟩
  · intro a b hfeeds
    obtain ⟨name, slot, hslot, hplug⟩ := hfeeds
    rw [Table.keys_modify]
    exact h.plugs a b ⟨name, slot, hslots a name ▸ hslot, hplug⟩
  · intro type schema hs name default hd plug hp
    rw [Table.keys_modify]
    exact h.defaults type schema hs name default hd plug hp
  · intro root hroot
    rw [Table.keys_modify]
    exact h.roots root hroot

theorem of_addNode (h : scene.WellFormed) {id : NodeId} (hnew : id ∉ scene.nodes.keys)
    (type name : String) (secondary : Option String) :
    (scene.addNode id type name secondary).WellFormed := by
  have hmem : ∀ {other}, other ∈ scene.nodes.keys →
      other ∈ (scene.addNode id type name secondary).nodes.keys := fun hother => by
    rw [keys_addNode hnew]
    exact List.mem_append_left _ hother
  refine ⟨h.keyed.of_addNode id type name secondary, ?_, ?_, fun root hroot =>
    hmem (h.roots root hroot)⟩
  · intro a b hfeeds
    obtain ⟨attr, slot, hslot, plug, hp, rfl⟩ := hfeeds
    refine hmem ?_
    rcases slot?_of_addNode hslot with hold | ⟨schema, hschema, default, hdefault, rfl⟩
    · exact h.plugs a plug.node ⟨attr, slot, hold, plug, hp, rfl⟩
    · exact h.defaults type schema hschema attr default hdefault plug (by simpa [Slot.plugs] using hp)
  · intro other schema hs attr default hd plug hp
    exact hmem (h.defaults other schema hs attr default hd plug hp)

end WellFormed

end Scene

end ShaderMigration
