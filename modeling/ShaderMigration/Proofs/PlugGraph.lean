import ShaderMigration.Proofs.SceneEdits
import Mathlib.Logic.Relation

namespace ShaderMigration

namespace Scene

variable {scene scene' : Scene} {node a b : NodeId} {attr : String}

/-- A slot of `a` holds a plug of `b`. -/
def Feeds (scene : Scene) (a b : NodeId) : Prop :=
  ∃ attr slot, scene.slot? a attr = some slot ∧ ∃ plug ∈ slot.plugs, plug.node = b

/-- No node depends on itself, directly or through other nodes. -/
def Acyclic (scene : Scene) : Prop := ∀ a, ¬ Relation.TransGen scene.Feeds a a

/-- No default of a schema holds a plug. -/
def SchemasPlugFree (scene : Scene) : Prop :=
  ∀ type schema, scene.schemas.find? type = some schema →
    ∀ name default, schema.attributes.find? name = some default → default.plugs = []

theorem schemasPlugFree_iff : scene.SchemasPlugFree ↔ ∀ entry ∈ scene.schemas.entries,
    ∀ default ∈ entry.2.attributes.entries, default.2.plugs = [] := by
  constructor
  · intro h entry he default hd
    exact h _ _ (Table.mem_entries_iff.mp he) _ _ (Table.mem_entries_iff.mp hd)
  · intro h type schema hs name default hd
    exact h _ (Table.mem_entries_iff.mpr hs) _ (Table.mem_entries_iff.mpr hd)

instance (scene : Scene) : Decidable scene.SchemasPlugFree :=
  decidable_of_iff _ schemasPlugFree_iff.symm

theorem mem_keys_of_slot? {slot : Slot} (h : scene.slot? a attr = some slot) :
    a ∈ scene.nodes.keys := by
  obtain ⟨found, hf, _⟩ := Option.bind_eq_some_iff.mp h
  exact Table.mem_keys_iff.mpr ⟨found, hf⟩

theorem mem_keys_of_feeds (h : scene.Feeds a b) : a ∈ scene.nodes.keys := by
  obtain ⟨attr, slot, hslot, _⟩ := h
  exact mem_keys_of_slot? hslot

theorem feeds_iff : scene.Feeds a b ↔ ∃ entry ∈ scene.nodes.entries, entry.1 = a ∧
    ∃ slot ∈ entry.2.attributes.entries, ∃ plug ∈ slot.2.plugs, plug.node = b := by
  constructor
  · intro h
    obtain ⟨attr, slot, hslot, plug, hp, hb⟩ := h
    obtain ⟨found, hf, hs⟩ := Option.bind_eq_some_iff.mp hslot
    exact ⟨_, Table.mem_entries_iff.mpr hf, rfl, _, Table.mem_entries_iff.mpr hs, plug, hp, hb⟩
  · intro h
    obtain ⟨entry, he, rfl, slot, hs, plug, hp, hb⟩ := h
    refine ⟨slot.1, slot.2, ?_, plug, hp, hb⟩
    exact Option.bind_eq_some_iff.mpr
      ⟨entry.2, Table.mem_entries_iff.mp he, Table.mem_entries_iff.mp hs⟩

instance (scene : Scene) (a b : NodeId) : Decidable (scene.Feeds a b) :=
  decidable_of_iff _ feeds_iff.symm

theorem Acyclic.not_feeds_self (h : scene.Acyclic) (a : NodeId) : ¬ scene.Feeds a a :=
  fun hf => h a (.single hf)

theorem Acyclic.of_lift (h : scene.Acyclic) (lift : NodeId → NodeId)
    (hl : ∀ a b, scene'.Feeds a b → scene.Feeds (lift a) (lift b)) : scene'.Acyclic := by
  intro a hcycle
  exact h (lift a) (Relation.TransGen.lift lift hl a a hcycle)

/-- A rank that falls along every plug excludes cycles. -/
theorem acyclic_of_rank (rank : NodeId → Nat)
    (h : ∀ entry ∈ scene.nodes.entries, ∀ slot ∈ entry.2.attributes.entries,
      ∀ plug ∈ slot.2.plugs, rank plug.node < rank entry.1) : scene.Acyclic := by
  have hfall : ∀ a b, scene.Feeds a b → rank b < rank a := by
    intro a b hf
    obtain ⟨entry, he, rfl, slot, hs, plug, hp, rfl⟩ := feeds_iff.mp hf
    exact h entry he slot hs plug hp
  intro a hcycle
  have hlt : ∀ b, Relation.TransGen scene.Feeds a b → rank b < rank a := by
    intro b path
    induction path with
    | single edge => exact hfall _ _ edge
    | tail _ edge ih => exact Nat.lt_trans (hfall _ _ edge) ih
  exact absurd (hlt a hcycle) (by omega)

theorem feeds_of_rewrites {offered : List Plug} (h : scene.Rewrites scene' node attr offered)
    (hf : scene'.Feeds a b) :
    scene.Feeds a b ∨ a = node ∧ ∃ plug ∈ offered, plug.node = b := by
  obtain ⟨_, old, new, hold, rfl, hplugs⟩ := h
  obtain ⟨name, slot, hslot, plug, hp, hb⟩ := hf
  rw [slot?_putSlot] at hslot
  split at hslot
  next heq =>
    obtain ⟨rfl, rfl⟩ := heq
    rw [hold, Option.map_some, Option.some.injEq] at hslot
    subst hslot
    rcases hplugs plug hp with hp | hp
    · exact Or.inl ⟨name, old, hold, plug, hp, hb⟩
    · exact Or.inr ⟨rfl, plug, hp, hb⟩
  next => exact Or.inl ⟨name, slot, hslot, plug, hp, hb⟩

theorem plugs_of_live {slot : Slot} {plug : Plug} (h : plug ∈ slot.live.plugs) :
    plug ∈ slot.plugs := by
  unfold Slot.live at h
  unfold Slot.plugs
  split at h
  next hinput =>
    simp only [Value.plugs, List.mem_singleton] at h
    simp [h, hinput]
  next => exact List.mem_append_left _ h

theorem feeds_of_get {value : Value} (h : scene.reads.get a attr = .ok value) {plug : Plug}
    (hp : plug ∈ value.plugs) : scene.Feeds a plug.node := by
  obtain ⟨slot, hslot, rfl⟩ := except_map_eq_ok_iff.mp h
  exact ⟨attr, slot, slot_eq_ok_iff.mp hslot, plug, plugs_of_live hp, rfl⟩

theorem feeds_of_getStatic {value : Value} (h : scene.reads.getStatic a attr = .ok value)
    {plug : Plug} (hp : plug ∈ value.plugs) : scene.Feeds a plug.node := by
  obtain ⟨slot, hslot, rfl⟩ := except_map_eq_ok_iff.mp h
  exact ⟨attr, slot, slot_eq_ok_iff.mp hslot, plug, List.mem_append_left _ hp, rfl⟩

theorem feeds_of_connections {plugs : List Plug} (h : scene.reads.connections a attr = .ok plugs)
    {plug : Plug} (hp : plug ∈ plugs) : scene.Feeds a plug.node := by
  obtain ⟨slot, hslot, rfl⟩ := except_map_eq_ok_iff.mp h
  exact ⟨attr, slot, slot_eq_ok_iff.mp hslot, plug, List.mem_append_right _ hp, rfl⟩

theorem slot?_of_rename {name : String} (h : scene.rename node name = .ok scene') (other : NodeId)
    (attr : String) : scene'.slot? other attr = scene.slot? other attr := by
  obtain ⟨_, rfl⟩ := rename_eq_ok_iff.mp h
  simp only [slot?, Table.find?_modify]
  split
  next => cases scene.nodes.find? other <;> rfl
  next => rfl

theorem feeds_of_rename {name : String} (h : scene.rename node name = .ok scene')
    (hf : scene'.Feeds a b) : scene.Feeds a b := by
  obtain ⟨attr, slot, hslot, hp⟩ := hf
  exact ⟨attr, slot, slot?_of_rename h a attr ▸ hslot, hp⟩

theorem plugs_of_freshSlots (h : scene.SchemasPlugFree) {type : String} {slot : Slot}
    (hslot : (scene.freshSlots type).find? attr = some slot) : slot.plugs = [] := by
  unfold freshSlots at hslot
  split at hslot
  next schema hschema =>
    rw [Table.find?_map] at hslot
    obtain ⟨default, hdefault, rfl⟩ := Option.map_eq_some_iff.mp hslot
    simp [Slot.plugs, h type schema hschema attr default hdefault]
  next => cases hslot

theorem feeds_of_addNode (h : scene.SchemasPlugFree) {id : NodeId} {type name : String}
    {secondary : Option String} (hf : (scene.addNode id type name secondary).Feeds a b) :
    scene.Feeds a b := by
  obtain ⟨attr, slot, hslot, plug, hp, hb⟩ := hf
  by_cases ha : a = id
  · subst ha
    have hfresh : (scene.freshSlots type).find? attr = some slot := by
      simpa [slot?, addNode] using hslot
    rw [plugs_of_freshSlots h hfresh] at hp
    simp at hp
  · refine ⟨attr, slot, ?_, plug, hp, hb⟩
    simpa [slot?, addNode, Table.find?_insert_of_ne _ ha] using hslot

end Scene

/-- A mesh that shows one phong shader in two slots; the shader reads a texture. -/
def twiceShaded : LiveScene where
  scene :=
    { schemas := .ofPairs
        [("blinn", ⟨"blinn", .ofPairs [("color", .float 0.0), ("glossy", .bool false)], {}⟩),
          ("standard", ⟨"standard", .ofPairs [("color", .float 0.0), ("glossy", .bool false)], {}⟩)]
      nodes := .ofPairs
        [(.ofNat 1, ⟨.ofNat 1, "mesh", none, "mesh", .ofPairs
            [("shaders", ⟨.array [.connection ⟨.ofNat 2, none⟩, .connection ⟨.ofNat 2, some "out"⟩],
              none⟩)], .empty⟩),
          (.ofNat 2, ⟨.ofNat 2, "phong", none, "skin", .ofPairs
            [("color", ⟨.float 0.0, some ⟨.ofNat 3, none⟩⟩), ("matte", ⟨.bool true, none⟩)],
              .empty⟩),
          (.ofNat 3, ⟨.ofNat 3, "file", none, "map", {}, .empty⟩)]
      roots := [.ofNat 1] }
  supply := ⟨fun n => .ofNat (n + 4), 0⟩

theorem twiceShaded_acyclic : twiceShaded.scene.Acyclic :=
  Scene.acyclic_of_rank (fun id => 3 - id.word.toNat) (by decide)

end ShaderMigration
