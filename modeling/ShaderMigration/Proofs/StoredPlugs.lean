import ShaderMigration.Proofs.SelfPlugs

namespace ShaderMigration

/-- An attribute shows a connection exactly if it is the one connected to it, and none is stored
beneath. -/
structure Reads.ViewsAgree (reads : Reads) (node : NodeId) (attr : String) : Prop where
  get_iff : ∀ plug, reads.get node attr = .ok (.connection plug) ↔
    reads.connections node attr = .ok [plug]
  getStatic : ∀ plug, reads.getStatic node attr ≠ .ok (.connection plug)

/-- The slot of an attribute that is declared with a value; a connection is not stored. -/
def Slot.ofDeclared : Value → Slot
  | .connection plug => ⟨.float 0.0, some plug⟩
  | other => ⟨other, none⟩

theorem Slot.ofDeclared_value_ne (value : Value) (plug : Plug) :
    (ofDeclared value).value ≠ .connection plug := by
  cases value <;> simp [ofDeclared, Value.float]

namespace Scene

variable {scene scene' : Scene} {node other : NodeId} {attr name : String}

def StoresPlug (scene : Scene) (node : NodeId) (attr : String) : Prop :=
  ∃ slot plug, scene.slot? node attr = some slot ∧ slot.value = .connection plug

def PlugDefault (scene : Scene) (type attr : String) : Prop :=
  ∃ schema plug, scene.schemas.find? type = some schema ∧
    schema.attributes.find? attr = some (.connection plug)

theorem get_eq_connection_iff {plug : Plug} :
    scene.reads.get node attr = .ok (.connection plug) ↔
      ∃ slot, scene.slot? node attr = some slot ∧ slot.live = .connection plug := by
  simp only [reads, except_map_eq_ok_iff, slot_eq_ok_iff]

theorem connections_eq_singleton_iff {plug : Plug} :
    scene.reads.connections node attr = .ok [plug] ↔
      ∃ slot, scene.slot? node attr = some slot ∧ slot.input = some plug := by
  have htoList : ∀ input : Option Plug, input.toList = [plug] ↔ input = some plug := by
    intro input
    cases input <;> simp
  simp only [reads, except_map_eq_ok_iff, slot_eq_ok_iff, htoList]

theorem getStatic_eq_connection_iff {plug : Plug} :
    scene.reads.getStatic node attr = .ok (.connection plug) ↔
      ∃ slot, scene.slot? node attr = some slot ∧ slot.value = .connection plug := by
  simp only [reads, except_map_eq_ok_iff, slot_eq_ok_iff]

theorem get_of_connections {plug : Plug} (h : scene.reads.connections node attr = .ok [plug]) :
    scene.reads.get node attr = .ok (.connection plug) := by
  obtain ⟨slot, hslot, hinput⟩ := connections_eq_singleton_iff.mp h
  exact get_eq_connection_iff.mpr ⟨slot, hslot, by rw [Slot.live, hinput]⟩

theorem viewsAgree_iff : scene.reads.ViewsAgree node attr ↔ ¬ scene.StoresPlug node attr := by
  constructor
  · intro h hstores
    obtain ⟨slot, plug, hslot, hvalue⟩ := hstores
    exact h.getStatic plug (getStatic_eq_connection_iff.mpr ⟨slot, hslot, hvalue⟩)
  · intro h
    refine ⟨fun plug => ⟨fun hget => ?_, get_of_connections⟩, fun plug hstatic => ?_⟩
    · obtain ⟨slot, hslot, hlive⟩ := get_eq_connection_iff.mp hget
      refine connections_eq_singleton_iff.mpr ⟨slot, hslot, ?_⟩
      cases hinput : slot.input with
      | some source => simpa [Slot.live, hinput] using hlive
      | none => exact absurd ⟨slot, plug, hslot, by simpa [Slot.live, hinput] using hlive⟩ h
    · obtain ⟨slot, hslot, hvalue⟩ := getStatic_eq_connection_iff.mp hstatic
      exact h ⟨slot, plug, hslot, hvalue⟩

theorem storesPlug_of_slots (h : scene'.slot? node attr = scene.slot? node attr) :
    scene'.StoresPlug node attr ↔ scene.StoresPlug node attr := by
  unfold StoresPlug
  rw [h]

/-- A write puts no connection in the place of a value and no value in the place of a connection. -/
theorem storesPlug_putSlot {old new : Slot} (hold : scene.slot? node attr = some old)
    (hsame : (∃ plug, new.value = .connection plug) ↔ ∃ plug, old.value = .connection plug) :
    (scene.putSlot node attr new).StoresPlug other name ↔ scene.StoresPlug other name := by
  unfold StoresPlug
  rw [slot?_putSlot]
  split
  next h =>
    obtain ⟨rfl, rfl⟩ := h
    simpa [hold] using hsame
  next => rfl

theorem isPlug_iff_of_fit {held value fitted : Value} (h : fit held value = .ok fitted) :
    (∃ plug, fitted = .connection plug) ↔ ∃ plug, held = .connection plug := by
  unfold fit at h
  split at h
  next =>
    split at h
    next =>
      cases h
      simp
    next => cases h
  next =>
    cases h
    simp
  next => cases h

theorem storesPlug_of_connect {source : Plug} (h : scene.connect source node attr = .ok scene') :
    scene'.StoresPlug other name ↔ scene.StoresPlug other name := by
  obtain ⟨_, _, slot, hslot, rfl⟩ := connect_eq_ok_iff.mp h
  exact storesPlug_putSlot hslot .rfl

theorem storesPlug_of_set {value : Value} (h : scene.set node attr value = .ok scene') :
    scene'.StoresPlug other name ↔ scene.StoresPlug other name := by
  have hstore : value.isConnection = false →
      (scene'.StoresPlug other name ↔ scene.StoresPlug other name) := by
    intro hv
    obtain ⟨_, slot, fitted, hslot, hfit, rfl⟩ := (set_eq_ok_iff hv).mp h
    exact storesPlug_putSlot hslot (isPlug_iff_of_fit hfit)
  cases value with
  | connection source => exact storesPlug_of_connect h
  | scalar payload => exact hstore rfl
  | array items => exact hstore rfl

theorem storesPlug_of_setIndexed {index : Nat} {value : Value}
    (h : scene.setIndexed node attr index value = .ok scene') :
    scene'.StoresPlug other name ↔ scene.StoresPlug other name := by
  obtain ⟨_, slot, items, hslot, hitems, _, rfl⟩ := setIndexed_eq_ok_iff.mp h
  exact storesPlug_putSlot hslot (by simp [hitems])

theorem storesPlug_addNode (scene : Scene) (id : NodeId) (type label : String)
    (secondary : Option String) :
    (scene.addNode id type label secondary).StoresPlug node attr ↔
      node = id ∧ scene.PlugDefault type attr ∨ scene.StoresPlug node attr ∧ node ≠ id := by
  unfold StoresPlug
  rw [slot?_addNode]
  split
  next hid =>
    simp only [hid, true_and, ne_eq, not_true, and_false, or_false]
    constructor
    · intro h
      obtain ⟨slot, plug, hslot, hvalue⟩ := h
      obtain ⟨schema, hschema, default, hdefault, rfl⟩ := find?_freshSlots_iff.mp hslot
      exact ⟨schema, plug, hschema, (show default = .connection plug from hvalue) ▸ hdefault⟩
    · intro h
      obtain ⟨schema, plug, hschema, hdefault⟩ := h
      exact ⟨{ value := .connection plug }, plug,
        find?_freshSlots_iff.mpr ⟨schema, hschema, _, hdefault, rfl⟩, rfl⟩
  next hid => simp [hid]

theorem declare_eq_ok_iff {value : Value} : scene.declare node attr value = .ok scene' ↔
    node ∈ scene.nodes.keys ∧ scene' = { scene with
      nodes := scene.nodes.modify node fun found =>
        { found with attributes := found.attributes.insert attr (.ofDeclared value) } } := by
  unfold declare
  rw [Table.mem_keys_iff]
  cases hfound : scene.nodes.find? node with
  | none => simp
  | some found => cases value <;> simp [Slot.ofDeclared, eq_comm]

/-- What is declared is connected where it is a connection, so it is not stored. -/
theorem storesPlug_of_declare {value : Value} (h : scene.declare node attr value = .ok scene') :
    scene'.StoresPlug other name ↔ scene.StoresPlug other name ∧ ¬ (other = node ∧ name = attr) := by
  obtain ⟨hnode, rfl⟩ := declare_eq_ok_iff.mp h
  obtain ⟨found, hfound⟩ := Table.mem_keys_iff.mp hnode
  unfold StoresPlug
  simp only [slot?, Table.find?_modify]
  by_cases hother : other = node
  · subst hother
    by_cases hname : name = attr
    · subst hname
      simpa [hfound] using Slot.ofDeclared_value_ne value
    · simp [hfound, hname, Table.find?_insert_of_ne]
  · simp [hother]

end Scene

end ShaderMigration
