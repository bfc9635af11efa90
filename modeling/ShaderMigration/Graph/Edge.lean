import ShaderMigration.Host

namespace ShaderMigration

/-- The attribute of `parent`, or one slot of it, is fed by an output of `child`. -/
structure Edge where
  parent : NodeId
  attr : String
  child : NodeId
  index : Option Nat
  channel : Option String
deriving DecidableEq

namespace Edge

def label (edge : Edge) : String :=
  let slot := s!"{edge.child.label} -> {edge.parent.label}.{edge.attr}"
  match edge.index with
  | some index => s!"{slot}[{index}]"
  | none => slot

def ofPlug (parent : NodeId) (attr : String) (index : Option Nat) (plug : Plug) : Edge :=
  ⟨parent, attr, plug.node, index, plug.channel⟩

def ofItems (parent : NodeId) (attr : String) : Nat → List Value → List Edge
  | _, [] => []
  | index, .connection plug :: rest =>
    ofPlug parent attr (some index) plug :: ofItems parent attr (index + 1) rest
  | index, _ :: rest => ofItems parent attr (index + 1) rest

def ofValue (parent : NodeId) (attr : String) : Value → List Edge
  | .connection plug => [ofPlug parent attr none plug]
  | .array items => ofItems parent attr 0 items
  | .scalar _ => []

end Edge

namespace Reads

/-- The edges of one attribute; an attribute that cannot be read has none. -/
def attributeEdges (reads : Reads) (node : NodeId) (attr : String) : List Edge :=
  match reads.get node attr with
  | .ok value => Edge.ofValue node attr value
  | .error _ => []

/-- The edges of a node, attribute by attribute; a node that cannot be read has none. -/
def edges (reads : Reads) (node : NodeId) : List Edge :=
  match reads.attributeNames node with
  | .ok names => names.flatMap (reads.attributeEdges node)
  | .error _ => []

end Reads

end ShaderMigration
