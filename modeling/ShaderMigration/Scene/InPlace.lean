import ShaderMigration.Scene.Live

namespace ShaderMigration.LiveScene.InPlace

def look {α : Type} (f : Scene → Except HostError α) : Action LiveScene α := fun live =>
  (f live.scene, live)

def change (f : Scene → Scene) : Action LiveScene Unit := fun live =>
  (.ok (), { live with scene := f live.scene })

def changeNode (node : NodeId) (f : SceneNode → SceneNode) : Action LiveScene Unit :=
  change fun scene => { scene with nodes := scene.nodes.modify node f }

def changeSlot (node : NodeId) (attr : String) (f : Slot → Slot) : Action LiveScene Unit :=
  changeNode node fun found => { found with attributes := found.attributes.modify attr f }

def add (type name : String) : Action LiveScene NodeId := fun live =>
  let (id, later) := addNode type name live
  (.ok id, later)

mutual

/-- Looks for the node of each plug in a value, in the order in which they stand. -/
def checkPlugs : Value → Action LiveScene Unit
  | .scalar _ => return
  | .connection plug => do
    let _ ← look fun scene => scene.node plug.node
  | .array items => checkPlugsOf items

def checkPlugsOf : List Value → Action LiveScene Unit
  | [] => return
  | item :: rest => do
    checkPlugs item
    checkPlugsOf rest

end

def rename (node : NodeId) (name : String) : Action LiveScene String := do
  let _ ← look fun scene => scene.node node
  changeNode node fun found => { found with name }
  return name

/-- The new node is added without a secondary type, which it is given then. -/
def create (type : String) (secondary : Option String) : Action LiveScene NodeId := do
  let declared ← look fun scene => .ok (scene.schemas.contains type)
  if !declared then throw (.creation type)
  let count ← look fun scene => .ok (scene.nodesOfType type).length
  let id ← add type (type ++ toString (count + 1))
  changeNode id fun found => { found with secondary }
  return id

def connect (source : Plug) (node : NodeId) (attr : String) : Action LiveScene Unit := do
  let _ ← look fun scene => scene.node source.node
  if source.node = node then throw (.rejected node attr .selfConnection)
  let _ ← look fun scene => scene.slotForWriting node attr
  changeSlot node attr fun slot => { slot with input := some source }

/-- Stores a value in an attribute, and then cuts its connection. -/
def store (node : NodeId) (attr : String) (value : Value) : Action LiveScene Unit := do
  checkPlugs value
  let slot ← look fun scene => scene.slotForWriting node attr
  let fitted ← look fun _ => (Scene.fit slot.value value).mapError (.rejected node attr)
  changeSlot node attr fun slot => { slot with value := fitted }
  changeSlot node attr fun slot => { slot with input := none }

def set (node : NodeId) (attr : String) : Value → Action LiveScene Unit
  | .connection plug => connect plug node attr
  | value => store node attr value

def setItem (index : Nat) (value : Value) : Value → Value
  | .array items => .array (items.set index value)
  | other => other

def setIndexed (node : NodeId) (attr : String) (index : Nat) (value : Value) :
    Action LiveScene Unit := do
  checkPlugs value
  let slot ← look fun scene => scene.slotForWriting node attr
  match slot.value with
  | .array items =>
    if index < items.length then
      changeSlot node attr fun slot => { slot with value := setItem index value slot.value }
    else throw (.indexOutOfRange node attr index)
  | other => throw (.rejected node attr (.notArray other.describe))

def setTag (node : NodeId) (key text : String) : Action LiveScene Unit := do
  let _ ← look fun scene => scene.node node
  changeNode node fun found => { found with tags := found.tags.insert key text }

/-- The host whose operations change a scene in place: each stops at the first look that fails, and
nothing takes back what it has changed until then. -/
def host : Host LiveScene where
  reads live := live.scene.reads
  rename := rename
  create := create
  set := set
  connect := connect
  setIndexed := setIndexed
  setTag := setTag

end ShaderMigration.LiveScene.InPlace
