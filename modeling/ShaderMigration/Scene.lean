import ShaderMigration.Host
import ShaderMigration.Table
import ShaderMigration.Tags

namespace ShaderMigration

/-- The declaration of a node type: its attributes with their defaults, and the attributes that its
stable input identifiers write to. -/
@[ext] structure Schema where
  type : String
  attributes : Table String Value := {}
  inputIds : Table String String := {}
deriving DecidableEq

namespace Schema

def attr (schema : Schema) (name : String) (default : Value) : Schema :=
  { schema with attributes := schema.attributes.insert name default }

def inputId (schema : Schema) (id attr : String) : Schema :=
  { schema with inputIds := schema.inputIds.insert id attr }

end Schema

/-- What an attribute holds: a stored value, and the output that drives it. -/
@[ext] structure Slot where
  value : Value
  input : Option Plug := none
deriving DecidableEq

namespace Slot

/-- The value that the attribute shows. -/
def live (slot : Slot) : Value :=
  match slot.input with
  | some plug => .connection plug
  | none => slot.value

/-- Every plug in the slot, stored at any depth or live. -/
def plugs (slot : Slot) : List Plug := slot.value.plugs ++ slot.input.toList

end Slot

@[ext] structure SceneNode where
  id : NodeId
  type : String
  secondary : Option String := none
  name : String
  attributes : Table String Slot := {}
  tags : Tags := .empty
deriving DecidableEq

/-- A scene: declared types, nodes by id, and the nodes from which networks are reached. -/
@[ext] structure Scene where
  schemas : Table String Schema := {}
  nodes : Table NodeId SceneNode := {}
  roots : List NodeId := []
deriving DecidableEq

namespace Scene

def empty : Scene := {}

def register (scene : Scene) (schema : Schema) : Scene :=
  { scene with schemas := scene.schemas.insert schema.type schema }

/-- The attributes of a new node of a type, at their defaults. -/
def freshSlots (scene : Scene) (type : String) : Table String Slot :=
  match scene.schemas.find? type with
  | some schema => schema.attributes.map fun default => { value := default }
  | none => {}

def addNode (scene : Scene) (id : NodeId) (type name : String) (secondary : Option String := none) :
    Scene :=
  { scene with
    nodes := scene.nodes.insert id
      { id, type, secondary, name, attributes := scene.freshSlots type } }

def addRoot (scene : Scene) (node : NodeId) : Scene :=
  if node ∈ scene.roots then scene else { scene with roots := scene.roots ++ [node] }

def slot? (scene : Scene) (node : NodeId) (attr : String) : Option Slot :=
  (scene.nodes.find? node).bind fun found => found.attributes.find? attr

def findByName? (scene : Scene) (name : String) : Option NodeId :=
  (scene.nodes.values.find? fun node => node.name == name).map SceneNode.id

def nodesOfType (scene : Scene) (type : String) : List NodeId :=
  (scene.nodes.values.filter fun node => node.type == type).map SceneNode.id

def node (scene : Scene) (id : NodeId) : Except HostError SceneNode :=
  match scene.nodes.find? id with
  | some found => .ok found
  | none => .error (.noSuchNode id)

/-- The slot of an attribute for reading: a missing node has no attributes. -/
def slot (scene : Scene) (node : NodeId) (attr : String) : Except HostError Slot :=
  match scene.slot? node attr with
  | some found => .ok found
  | none => .error (.noSuchAttribute node attr)

/-- The slot of an attribute for writing: a missing node is an error of its own. -/
def slotForWriting (scene : Scene) (node : NodeId) (attr : String) : Except HostError Slot :=
  match scene.nodes.find? node with
  | none => .error (.noSuchNode node)
  | some _ => scene.slot node attr

def putSlot (scene : Scene) (node : NodeId) (attr : String) (slot : Slot) : Scene :=
  { scene with
    nodes := scene.nodes.modify node fun found =>
      { found with attributes := found.attributes.modify attr fun _ => slot } }

/-- The node of the first plug in a list that does not exist. -/
def missingPlug? (scene : Scene) (plugs : List Plug) : Option NodeId :=
  (plugs.find? fun plug => !scene.nodes.contains plug.node).map Plug.node

def checkPlugs (scene : Scene) (value : Value) : Except HostError Unit :=
  match scene.missingPlug? value.plugs with
  | some node => .error (.noSuchNode node)
  | none => .ok ()

/-- Shapes a value to what a slot holds: a scalar is converted to the kind of the stored one, an
array replaces an array. -/
def fit (held value : Value) : Except Refusal Value :=
  match held, value with
  | .scalar old, .scalar payload =>
    match payload.coerce? old.kind with
    | some fitted => .ok (.scalar fitted)
    | none => .error (.kind payload.kind old.kind)
  | .array _, .array items => .ok (.array items)
  | old, other => .error (.shape other.describe old.describe)

/-- Declares an attribute on a node without looking at its schema; a connection becomes the live
input over a stored zero. -/
def declare (scene : Scene) (node : NodeId) (attr : String) (value : Value) :
    Except HostError Scene :=
  match scene.nodes.find? node with
  | none => .error (.noSuchNode node)
  | some _ =>
    let slot : Slot := match value with
      | .connection plug => ⟨.float 0.0, some plug⟩
      | other => ⟨other, none⟩
    .ok { scene with
      nodes := scene.nodes.modify node fun found =>
        { found with attributes := found.attributes.insert attr slot } }

def rename (scene : Scene) (node : NodeId) (name : String) : Except HostError Scene :=
  match scene.nodes.find? node with
  | none => .error (.noSuchNode node)
  | some _ => .ok { scene with nodes := scene.nodes.modify node fun found => { found with name } }

/-- Creates a node of a declared type, named after the type and the number of nodes of it. -/
def create (scene : Scene) (id : NodeId) (type : String) (secondary : Option String) :
    Except HostError Scene :=
  if scene.schemas.contains type then
    let count := (scene.nodesOfType type).length
    .ok (scene.addNode id type (type ++ toString (count + 1)) secondary)
  else .error (.creation type)

def connect (scene : Scene) (source : Plug) (node : NodeId) (attr : String) :
    Except HostError Scene := do
  let _ ← scene.node source.node
  if source.node = node then throw (.rejected node attr .selfConnection)
  let slot ← scene.slotForWriting node attr
  return scene.putSlot node attr { slot with input := some source }

/-- Stores a value in an attribute and cuts its connection; a connection is connected instead. -/
def set (scene : Scene) (node : NodeId) (attr : String) (value : Value) :
    Except HostError Scene :=
  match value with
  | .connection plug => scene.connect plug node attr
  | value => do
    scene.checkPlugs value
    let slot ← scene.slotForWriting node attr
    let fitted ← (fit slot.value value).mapError (.rejected node attr)
    return scene.putSlot node attr ⟨fitted, none⟩

/-- Stores a value in one slot of an array; a live connection over the array stays. -/
def setIndexed (scene : Scene) (node : NodeId) (attr : String) (index : Nat) (value : Value) :
    Except HostError Scene := do
  scene.checkPlugs value
  let slot ← scene.slotForWriting node attr
  match slot.value with
  | .array items =>
    if index < items.length then
      return scene.putSlot node attr { slot with value := .array (items.set index value) }
    else throw (.indexOutOfRange node attr index)
  | other => throw (.rejected node attr (.notArray other.describe))

def setTag (scene : Scene) (node : NodeId) (key text : String) : Except HostError Scene :=
  match scene.nodes.find? node with
  | none => .error (.noSuchNode node)
  | some _ =>
    .ok { scene with
      nodes := scene.nodes.modify node fun found => { found with tags := found.tags.insert key text } }

/-- The inputs of a node: those that the schema of its type lists for attributes it has, or one for
each attribute when the schema lists none. -/
def inputEntries (scene : Scene) (node : NodeId) : Except HostError (List InputEntry) := do
  let found ← scene.node node
  let ids := ((scene.schemas.find? found.type).map Schema.inputIds).getD {}
  if ids.isEmpty then return Host.entriesOfNames found.attributes.keys
  else
    return (ids.entries.filter fun entry => found.attributes.contains entry.2).map fun entry =>
      ⟨entry.1, entry.2⟩

def reads (scene : Scene) : Reads where
  nodesOfType := scene.nodesOfType
  allNodes := scene.nodes.keys
  roots := scene.roots
  nodeType node := (scene.node node).map SceneNode.type
  nodeName node := (scene.node node).map SceneNode.name
  attributeNames node := (scene.node node).map fun found => found.attributes.keys
  get node attr := (scene.slot node attr).map Slot.live
  getStatic node attr := (scene.slot node attr).map Slot.value
  connections node attr := (scene.slot node attr).map fun slot => slot.input.toList
  inputEntries := scene.inputEntries
  tag node key := (scene.node node).map fun found => found.tags.find? key

end Scene

end ShaderMigration
