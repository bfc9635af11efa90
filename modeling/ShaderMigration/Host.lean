import ShaderMigration.Value

namespace ShaderMigration

inductive Refusal where
  /-- A scalar does not convert to the kind of the slot. -/
  | kind (found held : ScalarKind)
  /-- Values of different shapes: what was offered and what the slot holds. -/
  | shape (found held : String)
  | selfConnection
  /-- A slot of an array was addressed, but the attribute holds something else. -/
  | notArray (found : String)
deriving DecidableEq

def Refusal.message : Refusal → String
  | kind found held => s!"cannot store {found.word} in a {held.word} attribute"
  | shape found held => s!"cannot store {found} in an attribute holding {held}"
  | selfConnection => "cannot connect a node to itself"
  | notArray found => s!"expected an array but found {found}"

inductive HostError where
  | noSuchNode (node : NodeId)
  | noSuchAttribute (node : NodeId) (attr : String)
  | rejected (node : NodeId) (attr : String) (reason : Refusal)
  | indexOutOfRange (node : NodeId) (attr : String) (index : Nat)
  | creation (type : String)
  | fault (text : String)
deriving DecidableEq

def HostError.message : HostError → String
  | noSuchNode node => s!"node {node.label} does not exist"
  | noSuchAttribute node attr => s!"node {node.label} has no attribute '{attr}'"
  | rejected node attr reason =>
    s!"attribute '{attr}' on {node.label} rejected value: " ++ reason.message
  | indexOutOfRange node attr index =>
    s!"index {index} is out of range for '{attr}' on {node.label}"
  | creation type => s!"cannot create node of type '{type}'"
  | fault text => s!"host fault: {text}"

/-- An input that is addressed by a stable identifier, and the attribute it writes to. -/
structure InputEntry where
  id : String
  attr : String
deriving DecidableEq

/-- What can be read from a scene as it stands. -/
structure Reads where
  nodesOfType : String → List NodeId
  allNodes : List NodeId
  /-- The top-level consumers of shading networks. -/
  roots : List NodeId
  nodeType : NodeId → Except HostError String
  nodeName : NodeId → Except HostError String
  attributeNames : NodeId → Except HostError (List String)
  /-- The value of an attribute: a connection when the attribute is driven. -/
  get : NodeId → String → Except HostError Value
  /-- The value stored underneath an incoming connection. -/
  getStatic : NodeId → String → Except HostError Value
  connections : NodeId → String → Except HostError (List Plug)
  inputEntries : NodeId → Except HostError (List InputEntry)
  tag : NodeId → String → Except HostError (Option String)

/-- An operation on a scene: a result or an error, and in either case the state left behind. -/
abbrev Action (σ α : Type) := ExceptT HostError (StateM σ) α

structure Host (σ : Type) where
  reads : σ → Reads
  /-- Renames a node, and tells the name that it was given. -/
  rename : NodeId → String → Action σ String
  /-- Creates a node of a type, perhaps with a secondary type. -/
  create : String → Option String → Action σ NodeId
  /-- Writes an attribute; writing a connection connects. -/
  set : NodeId → String → Value → Action σ Unit
  connect : Plug → NodeId → String → Action σ Unit
  /-- Writes one slot of an array attribute. -/
  setIndexed : NodeId → String → Nat → Value → Action σ Unit
  /-- Stores a text under a key of a node, apart from its attributes. -/
  setTag : NodeId → String → String → Action σ Unit

namespace Host

variable {σ : Type}

/-- Writes one slot of an array by reading the whole array, replacing the slot and writing it
back. -/
def setIndexedByCopy (host : Host σ) (node : NodeId) (attr : String) (index : Nat)
    (value : Value) : Action σ Unit := fun state =>
  match (host.reads state).getStatic node attr with
  | .error e => (.error e, state)
  | .ok (.array items) =>
    if index < items.length then host.set node attr (.array (items.set index value)) state
    else (.error (.indexOutOfRange node attr index), state)
  | .ok other => (.error (.rejected node attr (.notArray other.describe)), state)

/-- One input for each attribute, named like it. -/
def entriesOfNames (names : List String) : List InputEntry :=
  names.map fun name => ⟨name, name⟩

/-- The same host without operations of its own for stored values, array slots and inputs: each of
them is made from the remaining operations. -/
def basic (host : Host σ) : Host σ :=
  let reads := fun state =>
    let r := host.reads state
    { r with
      getStatic := r.get
      inputEntries := fun node => (r.attributeNames node).map entriesOfNames }
  { host with reads, setIndexed := setIndexedByCopy { host with reads } }

end Host

/-- A node of a scene, for reading only. -/
structure NodeView where
  reads : Reads
  node : NodeId

namespace NodeView

/-- The value of an attribute, a connection when it is driven. -/
def get (view : NodeView) (attr : String) : Except HostError Value :=
  view.reads.get view.node attr

def getStatic (view : NodeView) (attr : String) : Except HostError Value :=
  view.reads.getStatic view.node attr

def name (view : NodeView) : Except HostError String := view.reads.nodeName view.node

def type (view : NodeView) : Except HostError String := view.reads.nodeType view.node

end NodeView

end ShaderMigration
