import ShaderMigration.Json.Printer
import ShaderMigration.Json.Written
import ShaderMigration.Scene
import ShaderMigration.Table.Document
import ShaderMigration.Value.Document

namespace ShaderMigration

namespace Schema

def toData (schema : Schema) : Data :=
  .record <| [("type", .text schema.type), ("attributes", schema.attributes.toData Value.toData)] ++
    if schema.inputIds.isEmpty then [] else [("input_ids", schema.inputIds.toData .text)]

def ofData? (d : Data) : Option Schema := do
  let fields ← Data.Layout.read? (.ofFields ["type", "attributes", "input_ids"]) d
  return {
    type := ← fields.required "type" Data.text?
    attributes := ← fields.defaulted "attributes" (Table.ofData? Value.ofData?) {}
    inputIds := ← fields.defaulted "input_ids" (Table.ofData? Data.text?) {} }

def outline : Json.Outline :=
  .fields [("type", .whole), ("attributes", .whole), ("input_ids", .whole)]

end Schema

namespace Slot

def toData (slot : Slot) : Data :=
  .record <| ("value", slot.value.toData) ::
    match slot.input with
    | some plug => [("input", plug.toData)]
    | none => []

def ofData? (d : Data) : Option Slot := do
  let fields ← Data.Layout.read? (.ofFields ["value", "input"]) d
  return ⟨← fields.required "value" Value.ofData?,
    ← fields.defaulted "input" (Data.optional? Plug.ofData?) none⟩

def outline : Json.Outline :=
  .fields [("value", .whole), ("input", .fields [("node", .whole), ("channel", .whole)])]

end Slot

namespace SceneNode

def toData (node : SceneNode) : Data :=
  .record <| [("id", node.id.toData), ("type", .text node.type)] ++
    (match node.secondary with
    | some secondary => [("secondary_type", .text secondary)]
    | none => []) ++
    [("name", .text node.name), ("attributes", node.attributes.toData Slot.toData)] ++
    if node.tags.entries.isEmpty then []
    else [("tags", .record (node.tags.entries.map fun entry => (entry.1, .text entry.2)))]

def tagsOfData? (d : Data) : Option Tags :=
  d.members?.bind fun members =>
    (members.mapM fun member => (Data.text? member.2).map fun text => (member.1, text)).map Tags.ofPairs

def ofData? (d : Data) : Option SceneNode := do
  let fields ← Data.Layout.read?
    (.ofFields ["id", "type", "secondary_type", "name", "attributes", "tags"]) d
  return {
    id := ← fields.required "id" NodeId.ofData?
    type := ← fields.required "type" Data.text?
    secondary := ← fields.defaulted "secondary_type" (Data.optional? Data.text?) none
    name := ← fields.required "name" Data.text?
    attributes := ← fields.defaulted "attributes" (Table.ofData? Slot.ofData?) {}
    tags := ← fields.defaulted "tags" tagsOfData? .empty }

def outline : Json.Outline :=
  .fields [("id", .whole), ("type", .whole), ("secondary_type", .whole), ("name", .whole),
    ("attributes", .entries Slot.outline), ("tags", .whole)]

end SceneNode

namespace Scene

def nodesToData (nodes : Table NodeId SceneNode) : Data :=
  .record (nodes.entries.map fun entry => (entry.1.text, entry.2.toData))

def nodesOfData? (d : Data) : Option (Table NodeId SceneNode) :=
  d.members?.bind fun members =>
    (members.mapM fun member =>
      (NodeId.ofText? member.1).bind fun id =>
        (SceneNode.ofData? member.2).map fun node => (id, node)).map Table.ofPairs

def toData (scene : Scene) : Data :=
  .record [("schemas", scene.schemas.toData Schema.toData), ("nodes", nodesToData scene.nodes),
    ("roots", .list (scene.roots.map NodeId.toData))]

def ofData? (d : Data) : Option Scene := do
  let fields ← Data.Layout.read? (.ofFields ["schemas", "nodes", "roots"]) d
  return {
    schemas := ← fields.defaulted "schemas" (Table.ofData? Schema.ofData?) {}
    nodes := ← fields.defaulted "nodes" nodesOfData? {}
    roots := ← fields.defaulted "roots" (Data.listOf? NodeId.ofData?) [] }

def outline : Json.Outline :=
  .fields [("schemas", .entries Schema.outline), ("nodes", .entries SceneNode.outline),
    ("roots", .whole)]

def load? (text : String) : Option Scene := (Json.read? outline text).bind ofData?

def save (scene : Scene) : String := Json.pretty scene.toData

end Scene

end ShaderMigration
