import ShaderMigration.Proofs.ValueReadBack
import ShaderMigration.Scene.Document

namespace ShaderMigration

open Data (Layout Fields)
open Json (FiniteReadsBack Legible Outline legible_text legible_record_iff legible_list_iff)

variable {P : Float → Prop} [DecidablePred P]

namespace Tags

theorem entries_foldl_insert {pairs : List (String × String)} {tags : Tags}
    (h : Entries.InKeyOrder (tags.entries ++ pairs)) :
    (pairs.foldl (fun tags pair => tags.insert pair.1 pair.2) tags).entries =
      tags.entries ++ pairs := by
  induction pairs generalizing tags with
  | nil => simp
  | cons pair rest ih =>
    have hnew : (tags.insert pair.1 pair.2).entries = tags.entries ++ [pair] :=
      Entries.enter_of_lt fun entry he =>
        (List.pairwise_append.mp h).2.2 entry he pair List.mem_cons_self
    have hordered : Entries.InKeyOrder ((tags.insert pair.1 pair.2).entries ++ rest) := by
      rw [hnew]
      simpa using h
    rw [List.foldl_cons, ih hordered, hnew, List.append_assoc, List.singleton_append]

theorem ofPairs_entries (tags : Tags) : ofPairs tags.entries = tags :=
  Tags.ext (entries_foldl_insert tags.sorted)

end Tags

namespace Schema

def floats (schema : Schema) : List Float := schema.attributes.values.flatMap Value.floats

theorem ofData?_toData (schema : Schema) : ofData? schema.toData = some schema := by
  obtain ⟨type, attributes, inputIds⟩ := schema
  have hattributes : Table.ofData? Value.ofData? (attributes.toData Value.toData) =
      some attributes := Table.ofData?_toData fun entry _ => Value.ofData?_toData entry.2
  have hinputs : Table.ofData? Data.text? (inputIds.toData .text) = some inputIds :=
    Table.ofData?_toData fun _ _ => rfl
  by_cases hempty : inputIds.isEmpty = true
  · have hnone : inputIds = {} := Table.ext (List.isEmpty_iff.mp hempty)
    subst hnone
    simp [ofData?, toData, Layout.read?, Layout.ofMembers?, Layout.field?, Layout.ofFields,
      Fields.required, Fields.defaulted, Entries.find?, Data.text?, hattributes, hempty]
  · simp [ofData?, toData, Layout.read?, Layout.ofMembers?, Layout.field?, Layout.ofFields,
      Fields.required, Fields.defaulted, Entries.find?, Data.text?, hattributes, hinputs, hempty]

theorem legible_toData {schema : Schema} (h : ∀ x ∈ schema.floats, P x) :
    Legible P schema.toData := by
  have hattributes : Legible P (schema.attributes.toData Value.toData) :=
    Table.legible_toData fun value hv =>
      Value.legible_toData fun x hx => h x (List.mem_flatMap.mpr ⟨value, hv, hx⟩)
  have hinputs : Legible P (schema.inputIds.toData .text) :=
    Table.legible_toData fun s _ => legible_text s
  rw [toData, legible_record_iff]
  split
  next => simpa [legible_text] using hattributes
  next => simpa [legible_text] using ⟨hattributes, hinputs⟩

end Schema

namespace Slot

theorem ofData?_toData (slot : Slot) : ofData? slot.toData = some slot := by
  obtain ⟨value, input⟩ := slot
  cases input with
  | none =>
    simp [ofData?, toData, Layout.read?, Layout.ofMembers?, Layout.field?, Layout.ofFields,
      Fields.required, Fields.defaulted, Entries.find?, Value.ofData?_toData]
  | some plug =>
    have hplug : Data.optional? Plug.ofData? plug.toData = some (some plug) := by
      rw [Data.optional?, Plug.ofData?_toData, Option.map_some]
      simp [Plug.toData]
    simp [ofData?, toData, Layout.read?, Layout.ofMembers?, Layout.field?, Layout.ofFields,
      Fields.required, Fields.defaulted, Entries.find?, Value.ofData?_toData, hplug]

theorem legible_toData {slot : Slot} (h : ∀ x ∈ slot.value.floats, P x) :
    Legible P slot.toData := by
  obtain ⟨value, input⟩ := slot
  have hvalue := Value.legible_toData h
  cases input with
  | none => simpa [toData, legible_record_iff] using hvalue
  | some plug => simpa [toData, legible_record_iff] using ⟨hvalue, Value.legible_plug plug⟩

end Slot

namespace SceneNode

def floats (node : SceneNode) : List Float :=
  node.attributes.values.flatMap fun slot => slot.value.floats

theorem tagsOfData?_record (tags : Tags) :
    tagsOfData? (.record (tags.entries.map fun entry => (entry.1, .text entry.2))) = some tags := by
  have hentries : (tags.entries.map fun entry => (entry.1, Data.text entry.2)).mapM
      (fun member => (Data.text? member.2).map fun text => (member.1, text)) =
        some tags.entries := mapM_map_eq_some fun _ _ => rfl
  simp [tagsOfData?, Data.members?, hentries, Tags.ofPairs_entries]

theorem ofData?_toData (node : SceneNode) : ofData? node.toData = some node := by
  obtain ⟨id, type, secondary, name, attributes, tags⟩ := node
  have hattributes : Table.ofData? Slot.ofData? (attributes.toData Slot.toData) =
      some attributes := Table.ofData?_toData fun entry _ => Slot.ofData?_toData entry.2
  have htags := tagsOfData?_record tags
  by_cases hempty : tags.entries.isEmpty = true
  · have hnone : tags = .empty := Tags.ext (List.isEmpty_iff.mp hempty)
    subst hnone
    cases secondary <;>
      simp [ofData?, toData, Layout.read?, Layout.ofMembers?, Layout.field?, Layout.ofFields,
        Fields.required, Fields.defaulted, Entries.find?, Data.text?, Data.optional?,
        NodeId.ofData?_toData, hattributes, hempty]
  · cases secondary <;>
      simp [ofData?, toData, Layout.read?, Layout.ofMembers?, Layout.field?, Layout.ofFields,
        Fields.required, Fields.defaulted, Entries.find?, Data.text?, Data.optional?,
        NodeId.ofData?_toData, hattributes, hempty, htags]

theorem legible_toData {node : SceneNode} (h : ∀ x ∈ node.floats, P x) :
    Legible P node.toData := by
  have hattributes : Legible P (node.attributes.toData Slot.toData) :=
    Table.legible_toData fun slot hs =>
      Slot.legible_toData fun x hx => h x (List.mem_flatMap.mpr ⟨slot, hs, hx⟩)
  have htags : Legible P (.record (node.tags.entries.map fun entry => (entry.1, .text entry.2))) := by
    rw [legible_record_iff]
    intro member hm
    obtain ⟨entry, _, rfl⟩ := List.mem_map.mp hm
    exact legible_text entry.2
  rw [toData, legible_record_iff]
  cases node.secondary <;>
    simpa [legible_text, NodeId.toData] using ⟨hattributes, fun _ => htags⟩

end SceneNode

namespace Scene

/-- The floats of a scene: those in the defaults of its schemas and those stored in slots. -/
def floats (scene : Scene) : List Float :=
  scene.schemas.values.flatMap Schema.floats ++ scene.nodes.values.flatMap SceneNode.floats

/-- No float of the scene is infinite or undefined. -/
def Finite (scene : Scene) : Prop := ∀ x ∈ scene.floats, Binary64.isFinite x = true

instance (scene : Scene) : Decidable scene.Finite := inferInstanceAs (Decidable (∀ _ ∈ _, _))

theorem nodesOfData?_nodesToData (nodes : Table NodeId SceneNode) :
    nodesOfData? (nodesToData nodes) = some nodes := by
  have hentries : (nodes.entries.map fun entry => (entry.1.text, entry.2.toData)).mapM
      (fun member => (NodeId.ofText? member.1).bind fun id =>
        (SceneNode.ofData? member.2).map fun node => (id, node)) = some nodes.entries :=
    mapM_map_eq_some fun entry _ => by simp [NodeId.ofText?_text, SceneNode.ofData?_toData]
  simp [nodesOfData?, nodesToData, Data.members?, hentries, Table.ofPairs_entries]

theorem ofData?_toData (scene : Scene) : ofData? scene.toData = some scene := by
  obtain ⟨schemas, nodes, roots⟩ := scene
  have hschemas : Table.ofData? Schema.ofData? (schemas.toData Schema.toData) = some schemas :=
    Table.ofData?_toData fun entry _ => Schema.ofData?_toData entry.2
  have hroots : Data.listOf? NodeId.ofData? (.list (roots.map NodeId.toData)) = some roots := by
    rw [Data.listOf?, Data.items?, Option.bind_some]
    exact mapM_map_eq_some fun id _ => NodeId.ofData?_toData id
  simp [ofData?, toData, Layout.read?, Layout.ofMembers?, Layout.field?, Layout.ofFields,
    Fields.defaulted, Entries.find?, hschemas, nodesOfData?_nodesToData, hroots]

theorem legible_toData {scene : Scene} (h : ∀ x ∈ scene.floats, P x) :
    Legible P scene.toData := by
  obtain ⟨hschemas, hnodes⟩ := List.forall_mem_append.mp h
  have hschema : Legible P (scene.schemas.toData Schema.toData) :=
    Table.legible_toData fun schema hs =>
      Schema.legible_toData fun x hx => hschemas x (List.mem_flatMap.mpr ⟨schema, hs, hx⟩)
  have hnode : Legible P (nodesToData scene.nodes) := by
    rw [nodesToData, legible_record_iff]
    intro member hm
    obtain ⟨entry, he, rfl⟩ := List.mem_map.mp hm
    exact SceneNode.legible_toData fun x hx => hnodes x
      (List.mem_flatMap.mpr ⟨entry.2, List.mem_map.mpr ⟨entry, he, rfl⟩, hx⟩)
  have hroots : Legible P (.list (scene.roots.map NodeId.toData)) := by
    rw [legible_list_iff]
    intro d hd
    obtain ⟨id, _, rfl⟩ := List.mem_map.mp hd
    exact legible_text id.text
  simpa [toData, legible_record_iff] using ⟨hschema, hnode, hroots⟩

section Outlines

open Json.Outline (Keeps keeps_fields keeps_entries keeps_whole)

theorem keeps_schema (schema : Schema) : Keeps Schema.outline schema.toData := by
  refine keeps_fields ?_
  simp only [List.forall_mem_append]
  split <;> simp [Entries.find?, keeps_whole]

theorem keeps_plug (plug : Plug) :
    Keeps (.fields [("node", .whole), ("channel", .whole)]) plug.toData := by
  obtain ⟨node, channel⟩ := plug
  refine keeps_fields ?_
  cases channel <;> simp [Entries.find?, keeps_whole]

theorem keeps_slot (slot : Slot) : Keeps Slot.outline slot.toData := by
  obtain ⟨value, input⟩ := slot
  refine keeps_fields ?_
  cases input <;> simp [Entries.find?, keeps_whole, keeps_plug]

theorem keeps_table {α : Type} {write : α → Data} {outline : Outline}
    (h : ∀ a, Keeps outline (write a)) (table : Table String α) :
    Keeps (.entries outline) (table.toData write) := by
  refine keeps_entries fun member hm => ?_
  obtain ⟨entry, _, rfl⟩ := List.mem_map.mp hm
  exact h entry.2

theorem keeps_node (node : SceneNode) : Keeps SceneNode.outline node.toData := by
  have hattributes := keeps_table keeps_slot node.attributes
  refine keeps_fields ?_
  simp only [List.forall_mem_append, List.forall_mem_cons]
  refine ⟨⟨⟨⟨⟨_, rfl, keeps_whole _⟩, ⟨_, rfl, keeps_whole _⟩, ?_⟩, ?_⟩,
    ⟨_, rfl, keeps_whole _⟩, ⟨_, rfl, hattributes⟩, ?_⟩, ?_⟩
  · exact List.forall_mem_nil _
  · cases node.secondary with
    | none => exact List.forall_mem_nil _
    | some secondary => exact List.forall_mem_singleton.mpr ⟨_, rfl, keeps_whole _⟩
  · exact List.forall_mem_nil _
  · split
    next => exact List.forall_mem_nil _
    next => exact List.forall_mem_singleton.mpr ⟨_, rfl, keeps_whole _⟩

theorem keeps_scene (scene : Scene) : Keeps outline scene.toData := by
  have hnodes : Keeps (.entries SceneNode.outline) (nodesToData scene.nodes) := by
    refine keeps_entries fun member hm => ?_
    obtain ⟨entry, _, rfl⟩ := List.mem_map.mp hm
    exact keeps_node entry.2
  refine keeps_fields ?_
  simp [Entries.find?, keeps_whole, keeps_table keeps_schema, hnodes]

end Outlines

/-- What is read from the text of a scene is read from what the text shows. -/
theorem load?_save_eq {scene : Scene} (hreads : ∀ x ∈ scene.floats, FiniteReadsBack x)
    (hdepth : scene.toData.depth ≤ 127) : load? scene.save = ofData? scene.toData.printed := by
  rw [load?, save, Json.read?_pretty (legible_toData hreads) hdepth (keeps_scene scene),
    Option.bind_some]

/-- A scene of finite floats is read back from its text, with everything in the same order. -/
theorem load?_save {scene : Scene} (hfinite : scene.Finite)
    (hreads : ∀ x ∈ scene.floats, FiniteReadsBack x) (hdepth : scene.toData.depth ≤ 127) :
    load? scene.save = some scene := by
  have hprinted := Json.printed_of_legible (fun _ h => h) _ (legible_toData hfinite)
  rw [load?_save_eq hreads hdepth, hprinted, ofData?_toData]

/-- A scene with values of several kinds and an array in an array; its first node is kept under a key
that is not its id, and one of its plugs names an empty channel. -/
def misfiled : Scene where
  schemas := .ofPairs [("lamp", ⟨"lamp", .ofPairs [("power", .float 0.5), ("tint", .color ⟨1.0, 0.25, 0.0⟩)],
    .ofPairs [("In1", "power")]⟩)]
  nodes := .ofPairs
    [(.ofNat 2, ⟨.ofNat 7, "lamp", some "spot", "key \"light\"", .ofPairs
        [("power", ⟨.float 1.5, some ⟨.ofNat 4, some ""⟩⟩),
          ("stops", ⟨.array [.array [.int 3, .bool true], .array [], .connection ⟨.ofNat 9, none⟩], none⟩)],
        .ofPairs [("ref_id", "key"), ("pass", "")]⟩),
      (.ofNat 4, ⟨.ofNat 4, "ramp", none, "", {}, .empty⟩)]
  roots := [.ofNat 2, .ofNat 2]

theorem misfiled_load?_save : load? misfiled.save = some misfiled :=
  load?_save (by decide +kernel) (by decide +kernel) (by decide +kernel)

end Scene

end ShaderMigration
