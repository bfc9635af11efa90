import ShaderMigration.Proofs.FoundConsumers

namespace ShaderMigration

/-- The value at an address: the indices to follow into arrays of arrays, the outermost first. -/
def Value.at? : Value → List Nat → Option Value
  | value, [] => some value
  | .array items, index :: rest => items[index]?.bind fun item => item.at? rest
  | _, _ :: _ => none

namespace Value

theorem plugAt?_eq_some_iff {value : Value} {index : Option Nat} {plug : Plug} :
    value.plugAt? index = some plug ↔ value.at? index.toList = some (.connection plug) := by
  have hitem : ∀ item : Value, item.plug? = some plug ↔ item = .connection plug := by
    intro item
    cases item <;> simp [plug?]
  cases index with
  | none => cases value <;> simp [plugAt?, at?]
  | some index => cases value <;> simp [plugAt?, at?, Option.bind_eq_some_iff, hitem]

theorem mem_plugs_of_at? {value : Value} {address : List Nat} {plug : Plug}
    (h : value.at? address = some (.connection plug)) : plug ∈ value.plugs := by
  induction address generalizing value with
  | nil =>
    obtain rfl := Option.some.inj h
    simp [plugs]
  | cons index rest ih =>
    cases value with
    | array items =>
      obtain ⟨item, hitem, hplug⟩ := Option.bind_eq_some_iff.mp h
      rw [plugs, plugsOf_eq_flatMap]
      exact List.mem_flatMap.mpr ⟨item, List.mem_of_getElem? hitem, ih hplug⟩
    | scalar payload => simp [at?] at h
    | connection other => simp [at?] at h

mutual

theorem exists_address_of_mem_plugs {plug : Plug} : ∀ {value : Value}, plug ∈ value.plugs →
    ∃ address, value.at? address = some (.connection plug)
  | .scalar _, h => by simp [plugs] at h
  | .connection other, h => by
    obtain rfl : plug = other := by simpa [plugs] using h
    exact ⟨[], rfl⟩
  | .array _, h => by
    obtain ⟨item, hitem, rest, hplug⟩ := exists_item_of_mem_plugsOf (by simpa [plugs] using h)
    obtain ⟨index, hindex⟩ := List.getElem?_of_mem hitem
    exact ⟨index :: rest, by simpa [at?, hindex] using hplug⟩

theorem exists_item_of_mem_plugsOf {plug : Plug} : ∀ {items : List Value}, plug ∈ plugsOf items →
    ∃ item ∈ items, ∃ rest, item.at? rest = some (.connection plug)
  | [], h => by simp at h
  | item :: items, h => by
    rw [plugsOf_cons, List.mem_append] at h
    rcases h with h | h
    · exact ⟨item, List.mem_cons_self, exists_address_of_mem_plugs h⟩
    · obtain ⟨other, hother, hplug⟩ := exists_item_of_mem_plugsOf h
      exact ⟨other, List.mem_cons_of_mem _ hother, hplug⟩

end

theorem mem_plugs_iff_at? {value : Value} {plug : Plug} :
    plug ∈ value.plugs ↔ ∃ address, value.at? address = some (.connection plug) :=
  ⟨exists_address_of_mem_plugs, fun ⟨_, h⟩ => mem_plugs_of_at? h⟩

end Value

/-- A live value of the node holds a plug of the child within so many arrays. -/
def Reads.NamesAt (reads : Reads) (depth : Nat) (node child : NodeId) : Prop :=
  ∃ attr value address plug, reads.get node attr = .ok value ∧
    value.at? address = some (.connection plug) ∧ address.length = depth ∧ plug.node = child

theorem Reads.exists_namesAt_iff {reads : Reads} {node child : NodeId} :
    (∃ depth, reads.NamesAt depth node child) ↔
      ∃ attr value, reads.get node attr = .ok value ∧ ∃ plug ∈ value.plugs, plug.node = child := by
  constructor
  · intro h
    obtain ⟨_, attr, value, address, plug, hget, hplug, _, hchild⟩ := h
    exact ⟨attr, value, hget, plug, Value.mem_plugs_of_at? hplug, hchild⟩
  · intro h
    obtain ⟨attr, value, hget, plug, hplug, hchild⟩ := h
    obtain ⟨address, haddress⟩ := Value.mem_plugs_iff_at?.mp hplug
    exact ⟨_, attr, value, address, plug, hget, haddress, rfl, hchild⟩

namespace Scene

variable {scene : Scene} {node child : NodeId}

/-- The children of a node are what its live values name within one array at most. -/
theorem exists_edge_iff : (∃ edge ∈ scene.reads.edges node, edge.child = child) ↔
    ∃ depth ≤ 1, scene.reads.NamesAt depth node child := by
  constructor
  · intro h
    obtain ⟨edge, hedge, rfl⟩ := h
    obtain ⟨rfl, value, hget, hplug⟩ := mem_edges_iff_shows.mp hedge
    have hdepth : edge.index.toList.length ≤ 1 := by cases edge.index <;> simp
    exact ⟨_, hdepth, edge.attr, value, _, _, hget, Value.plugAt?_eq_some_iff.mp hplug, rfl, rfl⟩
  · intro h
    obtain ⟨depth, hdepth, attr, value, address, plug, hget, hplug, rfl, rfl⟩ := h
    obtain ⟨index, rfl⟩ : ∃ index : Option Nat, address = index.toList := by
      match address, hdepth with
      | [], _ => exact ⟨none, rfl⟩
      | [index], _ => exact ⟨some index, rfl⟩
    exact ⟨⟨node, attr, plug.node, index, plug.channel⟩, mem_edges_iff_shows.mpr
      ⟨rfl, value, hget, Value.plugAt?_eq_some_iff.mpr hplug⟩, rfl⟩

/-- At each node, the edges lead to what the live values name within one array at most, though they may
name more; and if the walks end, those who name a node in this way, and no others, are its consumers. -/
theorem seen_iff_within_one_array (scene : Scene) :
    (∀ node child, (∃ edge ∈ scene.reads.edges node, edge.child = child) ↔
      ∃ depth ≤ 1, scene.reads.NamesAt depth node child) ∧
    (∀ node child, (∃ attr value, scene.reads.get node attr = .ok value ∧
      ∃ plug ∈ value.plugs, plug.node = child) ↔ ∃ depth, scene.reads.NamesAt depth node child) ∧
    ∀ roots, (∀ root ∈ roots, LoopFree scene.reads.edges root) → ∀ old, ∃ found,
      scene.reads.consumers? roots old = some found ∧
      ∀ reader, (∃ consumer ∈ found, consumer.parent = reader) ↔
        scene.reads.Reached roots reader ∧ ∃ depth ≤ 1, scene.reads.NamesAt depth reader old := by
  refine ⟨fun _ _ => exists_edge_iff, fun _ _ => Reads.exists_namesAt_iff.symm, ?_⟩
  intro roots hloops old
  obtain ⟨found, hfound⟩ := Option.isSome_iff_exists.mp
    (Reads.isSome_consumers? fun root hroot => isSome_walk? (hloops root hroot))
  refine ⟨found, hfound, fun reader => ?_⟩
  rw [← exists_edge_iff]
  constructor
  · intro h
    obtain ⟨consumer, hmem, rfl⟩ := h
    obtain ⟨parent, hreached, edge, hedge, hchild, rfl⟩ := (Reads.mem_consumers?_iff hfound).mp hmem
    obtain rfl : edge.parent = parent := parent_of_mem_edges hedge
    exact ⟨hreached, edge, hedge, hchild⟩
  · intro h
    obtain ⟨hreached, edge, hedge, hchild⟩ := h
    exact ⟨edge.consumer, (Reads.mem_consumers?_iff hfound).mpr
      ⟨reader, hreached, edge, hedge, hchild, rfl⟩, parent_of_mem_edges hedge⟩

end Scene

theorem twiceShaded_mesh_found :
    (∀ root ∈ [NodeId.ofNat 1], LoopFree twiceShaded.scene.reads.edges root) ∧
      (∃ edge ∈ twiceShaded.scene.reads.edges (.ofNat 1), edge.child = .ofNat 2) ∧
      ∃ found, twiceShaded.scene.reads.consumers? [.ofNat 1] (.ofNat 2) = some found ∧
        ∃ consumer ∈ found, consumer.parent = .ofNat 1 := by
  have hloops : ∀ root ∈ [NodeId.ofNat 1], LoopFree twiceShaded.scene.reads.edges root :=
    fun root _ => twiceShaded_acyclic.loopFree root
  obtain ⟨hedges, _, hconsumers⟩ := Scene.seen_iff_within_one_array twiceShaded.scene
  have hnames : ∃ depth ≤ 1, twiceShaded.scene.reads.NamesAt depth (.ofNat 1) (.ofNat 2) :=
    ⟨1, Nat.le_refl 1, "shaders",
      .array [.connection ⟨.ofNat 2, none⟩, .connection ⟨.ofNat 2, some "out"⟩], [0],
      ⟨.ofNat 2, none⟩, rfl, rfl, rfl, rfl⟩
  obtain ⟨found, hfound, hreaders⟩ := hconsumers [.ofNat 1] hloops (.ofNat 2)
  exact ⟨hloops, (hedges _ _).mpr hnames, found, hfound,
    (hreaders _).mpr ⟨Reads.reached_of_mem (by simp), hnames⟩⟩

/-- A mesh with shaders in groups: an array that holds one array, which holds a phong shader. -/
def groupedShaders : LiveScene where
  scene :=
    { schemas := {}
      nodes := .ofPairs
        [(.ofNat 1, ⟨.ofNat 1, "mesh", none, "mesh", .ofPairs
            [("groups", ⟨.array [.array [.connection ⟨.ofNat 2, none⟩]], none⟩)], .empty⟩),
          (.ofNat 2, ⟨.ofNat 2, "phong", none, "skin", {}, .empty⟩),
          (.ofNat 3, ⟨.ofNat 3, "blinn", none, "skin_blinn", {}, .empty⟩)]
      roots := [.ofNat 1] }
  supply := ⟨fun n => .ofNat (n + 4), 0⟩

/-- The mesh names the shader, but has no edge; a cleanup reports success and leaves the plug. -/
theorem groupedShaders_unseen :
    ¬ (∀ child, (∃ edge ∈ groupedShaders.scene.reads.edges (.ofNat 1), edge.child = child) ↔
        ∃ attr value, groupedShaders.scene.reads.get (.ofNat 1) attr = .ok value ∧
          ∃ plug ∈ value.plugs, plug.node = child) ∧
      groupedShaders.scene.reads.consumers? [.ofNat 1] (.ofNat 2) = some [] ∧
      (cleanUp? (M := Memo) LiveScene.host {} [⟨.ofNat 2, .ofNat 3⟩] groupedShaders).map
        (fun run => (run.1, run.2.scene)) = some ({}, groupedShaders.scene) := by
  refine ⟨fun hall => ?_, by decide, by decide +kernel⟩
  have hnone : groupedShaders.scene.reads.edges (.ofNat 1) = [] := by decide
  obtain ⟨edge, hedge, _⟩ := (hall (.ofNat 2)).mpr
    ⟨"groups", .array [.array [.connection ⟨.ofNat 2, none⟩]], rfl, ⟨.ofNat 2, none⟩, by decide, rfl⟩
  rw [hnone] at hedge
  exact List.not_mem_nil hedge

end ShaderMigration
