import ShaderMigration.Proofs.SceneEdits

namespace ShaderMigration

namespace Scene

variable {scene scene' before mid after : Scene} {node id : NodeId} {attr type name : String}

def name? (scene : Scene) (id : NodeId) : Option String :=
  (scene.nodes.find? id).map SceneNode.name

theorem mem_keys_of_name? {name : String} (h : scene.name? id = some name) :
    id ∈ scene.nodes.keys := by
  obtain ⟨found, hfound, _⟩ := Option.map_eq_some_iff.mp h
  exact Table.mem_keys_iff.mpr ⟨found, hfound⟩

/-- Only the node was written to, and it kept its id, type and name and the list of its
attributes. -/
structure ChangesOnly (node : NodeId) (before after : Scene) : Prop where
  schemas : after.schemas = before.schemas
  roots : after.roots = before.roots
  keys : after.nodes.keys = before.nodes.keys
  others : ∀ other, other ≠ node → after.nodes.find? other = before.nodes.find? other
  kept : ∀ found, before.nodes.find? node = some found →
    ∃ found', after.nodes.find? node = some found' ∧ found'.id = found.id ∧
      found'.type = found.type ∧ found'.name = found.name ∧
        found'.attributes.keys = found.attributes.keys

theorem ChangesOnly.refl (node : NodeId) (scene : Scene) : scene.ChangesOnly node scene :=
  ⟨rfl, rfl, rfl, fun _ _ => rfl, fun found h => ⟨found, h, rfl, rfl, rfl, rfl⟩⟩

theorem ChangesOnly.trans (h : before.ChangesOnly node mid) (h' : mid.ChangesOnly node after) :
    before.ChangesOnly node after := by
  refine ⟨h'.schemas.trans h.schemas, h'.roots.trans h.roots, h'.keys.trans h.keys,
    fun other hne => (h'.others other hne).trans (h.others other hne), ?_⟩
  intro found hfound
  obtain ⟨found', hf', hid, htype, hname, hattrs⟩ := h.kept found hfound
  obtain ⟨found'', hf'', hid', htype', hname', hattrs'⟩ := h'.kept found' hf'
  exact ⟨found'', hf'', hid'.trans hid, htype'.trans htype, hname'.trans hname,
    hattrs'.trans hattrs⟩

theorem ChangesOnly.of_modify (f : SceneNode → SceneNode)
    (hf : ∀ found, (f found).id = found.id ∧ (f found).type = found.type ∧
      (f found).name = found.name ∧ (f found).attributes.keys = found.attributes.keys) :
    scene.ChangesOnly node { scene with nodes := scene.nodes.modify node f } := by
  refine ⟨rfl, rfl, Table.keys_modify _ _ _, ?_, ?_⟩
  · intro other hne
    simp [Table.find?_modify, hne]
  · intro found h
    exact ⟨f found, by simp [Table.find?_modify, h], hf found⟩

theorem ChangesOnly.of_rewrites {offered : List Plug}
    (h : scene.Rewrites scene' node attr offered) : scene.ChangesOnly node scene' := by
  obtain ⟨_, slot, slot', _, rfl, _⟩ := h
  exact of_modify _ fun found => ⟨rfl, rfl, rfl, Table.keys_modify _ _ _⟩

theorem ChangesOnly.name?_eq (h : before.ChangesOnly node after) (id : NodeId) :
    after.name? id = before.name? id := by
  unfold name?
  by_cases hid : id = node
  · subst hid
    cases hfound : before.nodes.find? id with
    | some found =>
      obtain ⟨found', hfound', _, _, hname, _⟩ := h.kept found hfound
      rw [hfound', Option.map_some, Option.map_some, hname]
    | none =>
      have hnot : id ∉ after.nodes.keys := by
        rw [h.keys, Table.mem_keys_iff, hfound]
        simp
      cases hafter : after.nodes.find? id with
      | none => rfl
      | some found => exact absurd (Table.mem_keys_iff.mpr ⟨found, hafter⟩) hnot
  · rw [h.others id hid]

/-- A node of the type was put under the id, and nothing else was changed. -/
structure Adds (id : NodeId) (type name : String) (before after : Scene) : Prop where
  schemas : after.schemas = before.schemas
  roots : after.roots = before.roots
  keys : after.nodes.keys =
    if id ∈ before.nodes.keys then before.nodes.keys else before.nodes.keys ++ [id]
  others : ∀ other, other ≠ id → after.nodes.find? other = before.nodes.find? other
  node : ∃ found, after.nodes.find? id = some found ∧ found.id = id ∧ found.type = type ∧
    found.name = name ∧ found.attributes.keys = (before.freshSlots type).keys

theorem Adds.name?_self (h : before.Adds id type name after) : after.name? id = some name := by
  obtain ⟨found, hfound, _, _, hname, _⟩ := h.node
  rw [name?, hfound, Option.map_some, hname]

theorem Adds.name?_of_ne (h : before.Adds id type name after) {other : NodeId} (hne : other ≠ id) :
    after.name? other = before.name? other := by
  unfold name?
  rw [h.others other hne]

theorem Adds.of_addNode (scene : Scene) (id : NodeId) (type name : String)
    (secondary : Option String) :
    scene.Adds id type name (scene.addNode id type name secondary) := by
  refine ⟨rfl, rfl, Table.keys_insert _ _ _, ?_, ?_⟩
  · exact fun other hne => Table.find?_insert_of_ne _ hne _
  · exact ⟨_, Table.find?_insert_self _ _ _, rfl, rfl, rfl, rfl⟩

theorem Adds.of_changesOnly (h : before.Adds id type name mid) (h' : mid.ChangesOnly id after) :
    before.Adds id type name after := by
  refine ⟨h'.schemas.trans h.schemas, h'.roots.trans h.roots, h'.keys.trans h.keys,
    fun other hne => (h'.others other hne).trans (h.others other hne), ?_⟩
  obtain ⟨found, hf, hid, htype, hname, hattrs⟩ := h.node
  obtain ⟨found', hf', hid', htype', hname', hattrs'⟩ := h'.kept found hf
  exact ⟨found', hf', hid'.trans hid, htype'.trans htype, hname'.trans hname,
    hattrs'.trans hattrs⟩

theorem Adds.of_rename (h : before.Adds id type name mid) {later : String}
    (h' : mid.rename id later = .ok after) : before.Adds id type later after := by
  obtain ⟨_, rfl⟩ := rename_eq_ok_iff.mp h'
  refine ⟨h.schemas, h.roots, (Table.keys_modify _ _ _).trans h.keys, ?_, ?_⟩
  · intro other hne
    rw [← h.others other hne]
    simp [Table.find?_modify, hne]
  · obtain ⟨found, hf, hid, htype, _, hattrs⟩ := h.node
    exact ⟨{ found with name := later }, by simp [Table.find?_modify, hf], hid, htype, rfl, hattrs⟩

theorem Keyed.nodesOfType_eq_filter (h : scene.Keyed) (type : String) :
    scene.nodesOfType type = scene.nodes.keys.filter fun id =>
      (scene.nodes.find? id).any fun found => found.type == type := by
  rw [h.nodesOfType_eq, Table.keys, Entries.keys, List.filter_map]
  congr 1
  refine List.filter_congr fun entry he => ?_
  have hfound : scene.nodes.find? entry.1 = some entry.2 := Table.mem_entries_iff.mp he
  simp [hfound]

end Scene

namespace LiveScene

theorem create_eq (type : String) (secondary : Option String) (live : LiveScene) :
    create type secondary live =
      if live.scene.schemas.contains type then
        (.ok live.supply.next, ⟨live.scene.addNode live.supply.next type
          (type ++ toString ((live.scene.nodesOfType type).length + 1)) secondary,
          live.supply.rest⟩)
      else (.error (.creation type), live) := by
  unfold create Scene.create
  cases live.scene.schemas.contains type <;> simp

/-- The next ids of the supply are ids of no node, and all different. -/
structure NextUnused (live : LiveScene) (count : Nat) : Prop where
  absent : ∀ i, i < count → live.supply.id (live.supply.drawn + i) ∉ live.scene.nodes.keys
  distinct : ∀ j, j < count → ∀ i, i < j →
    live.supply.id (live.supply.drawn + i) ≠ live.supply.id (live.supply.drawn + j)

theorem nextUnused_iff {live : LiveScene} {count : Nat} : live.NextUnused count ↔
    (∀ i, i < count → live.supply.id (live.supply.drawn + i) ∉ live.scene.nodes.keys) ∧
      ∀ j, j < count → ∀ i, i < j →
        live.supply.id (live.supply.drawn + i) ≠ live.supply.id (live.supply.drawn + j) :=
  ⟨fun h => ⟨h.absent, h.distinct⟩, fun h => ⟨h.1, h.2⟩⟩

instance (live : LiveScene) (count : Nat) : Decidable (live.NextUnused count) :=
  decidable_of_iff _ nextUnused_iff.symm

variable {live before mid after : LiveScene} {touched touched' : List NodeId}
  {made made' : List (NodeId × String)}

theorem NextUnused.next_not_mem {count : Nat} (h : live.NextUnused (count + 1)) :
    live.supply.next ∉ live.scene.nodes.keys := h.absent 0 (by omega)

theorem NextUnused.mono {count count' : Nat} (h : live.NextUnused count) (hle : count' ≤ count) :
    live.NextUnused count' :=
  ⟨fun i hi => h.absent i (by omega), fun j hj i hi => h.distinct j (by omega) i hi⟩

/-- The nodes made are new and come last, under the next ids and with the attributes of their
schemas; the nodes from before stay where they are, and those not touched stay as they are. -/
structure Extends (touched : List NodeId) (made : List (NodeId × String))
    (before after : LiveScene) : Prop where
  supply : after.supply = { before.supply with drawn := before.supply.drawn + made.length }
  ids : made.map Prod.fst =
    (List.range made.length).map fun i => before.supply.id (before.supply.drawn + i)
  schemas : after.scene.schemas = before.scene.schemas
  roots : after.scene.roots = before.scene.roots
  keys : after.scene.nodes.keys = before.scene.nodes.keys ++ made.map Prod.fst
  same : ∀ id ∈ before.scene.nodes.keys, id ∉ touched →
    after.scene.nodes.find? id = before.scene.nodes.find? id
  kept : ∀ {id found}, before.scene.nodes.find? id = some found →
    ∃ found', after.scene.nodes.find? id = some found' ∧ found'.id = found.id ∧
      found'.type = found.type ∧ found'.attributes.keys = found.attributes.keys
  node : ∀ entry ∈ made, ∃ found, after.scene.nodes.find? entry.1 = some found ∧
    found.id = entry.1 ∧ found.type = entry.2 ∧
      found.attributes.keys = (before.scene.freshSlots entry.2).keys

namespace Extends

theorem refl (live : LiveScene) : live.Extends [] [] live :=
  ⟨rfl, rfl, rfl, rfl, (List.append_nil _).symm, fun _ _ _ => rfl,
    fun h => ⟨_, h, rfl, rfl, rfl⟩, fun _ h => absurd h List.not_mem_nil⟩

theorem trans (h : before.Extends touched made mid) (h' : mid.Extends touched' made' after) :
    before.Extends (touched ++ touched') (made ++ made') after := by
  have hmem : ∀ id ∈ before.scene.nodes.keys, id ∈ mid.scene.nodes.keys := fun id hid =>
    h.keys ▸ List.mem_append_left _ hid
  have hslots : ∀ type, mid.scene.freshSlots type = before.scene.freshSlots type := by
    intro type
    unfold Scene.freshSlots
    rw [h.schemas]
  refine ⟨?_, ?_, h'.schemas.trans h.schemas, h'.roots.trans h.roots, ?_, ?_, ?_, ?_⟩
  · rw [h'.supply, h.supply, List.length_append, Nat.add_assoc]
  · rw [List.map_append, h.ids, h'.ids, h.supply, List.length_append, List.range_add,
      List.map_append, List.map_map]
    congr 1
    refine List.map_congr_left fun i _ => ?_
    simp only [Function.comp_apply, Nat.add_assoc]
  · rw [h'.keys, h.keys, List.map_append, List.append_assoc]
  · intro id hid hnot
    rw [List.mem_append, not_or] at hnot
    exact (h'.same id (hmem id hid) hnot.2).trans (h.same id hid hnot.1)
  · intro id found hfound
    obtain ⟨found', hf', hid, htype, hattrs⟩ := h.kept hfound
    obtain ⟨found'', hf'', hid', htype', hattrs'⟩ := h'.kept hf'
    exact ⟨found'', hf'', hid'.trans hid, htype'.trans htype, hattrs'.trans hattrs⟩
  · intro entry he
    rcases List.mem_append.mp he with he | he
    · obtain ⟨found, hf, hid, htype, hattrs⟩ := h.node entry he
      obtain ⟨found', hf', hid', htype', hattrs'⟩ := h'.kept hf
      exact ⟨found', hf', hid'.trans hid, htype'.trans htype, hattrs'.trans hattrs⟩
    · exact hslots entry.2 ▸ h'.node entry he

theorem mono (h : before.Extends touched made after)
    (hle : ∀ id ∈ before.scene.nodes.keys, id ∈ touched → id ∈ touched') :
    before.Extends touched' made after :=
  { h with same := fun id hid hnot => h.same id hid fun hm => hnot (hle id hid hm) }

theorem of_changesOnly {node : NodeId} {scene : Scene}
    (h : live.scene.ChangesOnly node scene) :
    live.Extends [node] [] { live with scene } := by
  refine ⟨rfl, rfl, h.schemas, h.roots, by simpa using h.keys, ?_, ?_, by simp⟩
  · exact fun id _ hnot => h.others id fun heq => hnot (List.mem_singleton.mpr heq)
  · intro id found hfound
    by_cases hid : id = node
    · subst hid
      obtain ⟨found', hf', hid, htype, _, hattrs⟩ := h.kept found hfound
      exact ⟨found', hf', hid, htype, hattrs⟩
    · exact ⟨found, (h.others id hid).trans hfound, rfl, rfl, rfl⟩

theorem of_adds {type name : String} {scene : Scene}
    (h : live.scene.Adds live.supply.next type name scene)
    (hnext : live.supply.next ∉ live.scene.nodes.keys) :
    live.Extends [] [(live.supply.next, type)] ⟨scene, live.supply.rest⟩ := by
  have hne : ∀ id ∈ live.scene.nodes.keys, id ≠ live.supply.next := fun id hid heq =>
    hnext (heq ▸ hid)
  refine ⟨rfl, rfl, h.schemas, h.roots, ?_, ?_, ?_, ?_⟩
  · rw [h.keys, if_neg hnext]
    rfl
  · exact fun id hid _ => h.others id (hne id hid)
  · intro id found hfound
    have hid := hne id (Table.mem_keys_iff.mpr ⟨found, hfound⟩)
    exact ⟨found, (h.others id hid).trans hfound, rfl, rfl, rfl⟩
  · intro entry he
    rw [List.mem_singleton.mp he]
    obtain ⟨found, hf, hid, htype, _, hattrs⟩ := h.node
    exact ⟨found, hf, hid, htype, hattrs⟩

section

variable (h : before.Extends touched made after)
include h

theorem mem_keys {id : NodeId} (hid : id ∈ before.scene.nodes.keys) :
    id ∈ after.scene.nodes.keys := h.keys ▸ List.mem_append_left _ hid

theorem nodup_made : (made.map Prod.fst).Nodup :=
  (List.nodup_append.mp (h.keys ▸ after.scene.nodes.nodup :
    (before.scene.nodes.keys ++ made.map Prod.fst).Nodup)).2.1

theorem not_mem_made {id : NodeId} (hid : id ∈ before.scene.nodes.keys) :
    id ∉ made.map Prod.fst := by
  have hnodup : (before.scene.nodes.keys ++ made.map Prod.fst).Nodup :=
    h.keys ▸ after.scene.nodes.nodup
  exact fun hm => (List.nodup_append.mp hnodup).2.2 id hid id hm rfl

theorem nextUnused {count : Nat} (hunused : before.NextUnused (made.length + count)) :
    after.NextUnused count := by
  constructor
  · intro i hi hm
    rw [h.supply, h.keys, List.mem_append] at hm
    dsimp only at hm
    rw [Nat.add_assoc] at hm
    rcases hm with hm | hm
    · exact hunused.absent _ (by omega) hm
    · rw [h.ids] at hm
      obtain ⟨j, hj, heq⟩ := List.mem_map.mp hm
      have hlt := List.mem_range.mp hj
      exact hunused.distinct (made.length + i) (by omega) j (by omega) heq
  · intro j hj i hi
    rw [h.supply]
    dsimp only
    rw [Nat.add_assoc, Nat.add_assoc]
    exact hunused.distinct _ (by omega) _ (by omega)

theorem keyed (hkeyed : before.scene.Keyed) : after.scene.Keyed := by
  intro id found hfound
  have hmem : id ∈ after.scene.nodes.keys := Table.mem_keys_iff.mpr ⟨found, hfound⟩
  rw [h.keys, List.mem_append] at hmem
  rcases hmem with hold | hnew
  · obtain ⟨old, hf⟩ := Table.mem_keys_iff.mp hold
    obtain ⟨found', hf', hid, _⟩ := h.kept hf
    rw [Option.some.inj (hfound.symm.trans hf'), hid]
    exact hkeyed id old hf
  · obtain ⟨entry, he, rfl⟩ := List.mem_map.mp hnew
    obtain ⟨found', hf', hid, _⟩ := h.node entry he
    rw [Option.some.inj (hfound.symm.trans hf'), hid]

theorem nodesOfType (hkeyed : before.scene.Keyed) (type : String) :
    after.scene.nodesOfType type = before.scene.nodesOfType type ++
      (made.filter fun entry => entry.2 == type).map Prod.fst := by
  rw [(h.keyed hkeyed).nodesOfType_eq_filter, hkeyed.nodesOfType_eq_filter, h.keys,
    List.filter_append, List.filter_map]
  congr 1
  · refine List.filter_congr fun id hid => ?_
    obtain ⟨found, hf⟩ := Table.mem_keys_iff.mp hid
    obtain ⟨found', hf', _, htype, _⟩ := h.kept hf
    simp [hf, hf', htype]
  · congr 1
    refine List.filter_congr fun entry he => ?_
    obtain ⟨found, hf, _, htype, _⟩ := h.node entry he
    simp [hf, htype]

end

end Extends

end LiveScene

end ShaderMigration
