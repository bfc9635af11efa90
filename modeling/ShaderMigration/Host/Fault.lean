import ShaderMigration.Host

namespace ShaderMigration

inductive HostMethod where
  | nodeType | nodeName | rename | create | attributeNames | get | getStatic | set | connections
  | connect | setIndexed | inputEntries | setTag | getTag
deriving DecidableEq

namespace HostMethod

def words : List (String × HostMethod) :=
  [("node_type", nodeType), ("node_name", nodeName), ("rename_node", rename),
    ("create_node", create), ("attribute_names", attributeNames), ("get_attr", get),
    ("get_static_attr", getStatic), ("set_attr", set), ("get_connections", connections),
    ("connect", connect), ("set_indexed_attr", setIndexed), ("input_entries", inputEntries),
    ("set_tag", setTag), ("get_tag", getTag)]

def ofWord? (word : String) : Option HostMethod :=
  (words.find? fun entry => entry.1 == word).map Prod.snd

end HostMethod

/-- A call that fails: the operation, and the node and the name it must be about, if given. -/
structure Fault where
  method : HostMethod
  node : Option NodeId := none
  name : Option String := none
  text : String

namespace Fault

def fits (fault : Fault) (method : HostMethod) (node : Option NodeId) (name : Option String) : Bool :=
  fault.method == method && (fault.node.isNone || fault.node == node) &&
    (fault.name.isNone || fault.name == name)

def find? (faults : List Fault) (method : HostMethod) (node : Option NodeId) (name : Option String) :
    Option HostError :=
  (faults.find? fun fault => fault.fits method node name).map fun fault => .fault fault.text

def guardRead {α : Type} (found : Option HostError) (read : Except HostError α) : Except HostError α :=
  match found with
  | some e => .error e
  | none => read

def guardAction {σ α : Type} (found : Option HostError) (action : Action σ α) : Action σ α :=
  match found with
  | some e => fun state => (.error e, state)
  | none => action

end Fault

namespace Reads

def withFaults (reads : Reads) (faults : List Fault) : Reads :=
  let about := fun method node name => Fault.find? faults method (some node) name
  { reads with
    nodeType := fun node => Fault.guardRead (about .nodeType node none) (reads.nodeType node)
    nodeName := fun node => Fault.guardRead (about .nodeName node none) (reads.nodeName node)
    attributeNames := fun node =>
      Fault.guardRead (about .attributeNames node none) (reads.attributeNames node)
    get := fun node name => Fault.guardRead (about .get node (some name)) (reads.get node name)
    getStatic := fun node name =>
      Fault.guardRead (about .getStatic node (some name)) (reads.getStatic node name)
    connections := fun node name =>
      Fault.guardRead (about .connections node (some name)) (reads.connections node name)
    inputEntries := fun node =>
      Fault.guardRead (about .inputEntries node none) (reads.inputEntries node)
    tag := fun node key => Fault.guardRead (about .getTag node (some key)) (reads.tag node key) }

end Reads

/-- The first fault that fits a call is its answer, and the state is left alone. -/
def Host.withFaults {σ : Type} (host : Host σ) (faults : List Fault) : Host σ :=
  let about := fun method node name => Fault.find? faults method (some node) name
  { reads := fun state => (host.reads state).withFaults faults
    rename := fun node name => Fault.guardAction (about .rename node none) (host.rename node name)
    create := fun type secondary =>
      Fault.guardAction (Fault.find? faults .create none (some type)) (host.create type secondary)
    set := fun node name value =>
      Fault.guardAction (about .set node (some name)) (host.set node name value)
    connect := fun source node name =>
      Fault.guardAction (about .connect node (some name)) (host.connect source node name)
    setIndexed := fun node name index value =>
      Fault.guardAction (about .setIndexed node (some name)) (host.setIndexed node name index value)
    setTag := fun node key text =>
      Fault.guardAction (about .setTag node (some key)) (host.setTag node key text) }

end ShaderMigration
