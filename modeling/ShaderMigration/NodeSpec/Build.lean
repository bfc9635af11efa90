import ShaderMigration.Host
import ShaderMigration.NodeSpec
import ShaderMigration.Table

namespace ShaderMigration

/-- Where the node that has a tag is looked for. -/
inductive TagScope where
  /-- Among the nodes of the same build. -/
  | build
  /-- Among all nodes of the scene too. -/
  | document
deriving DecidableEq, Repr

structure BuildOptions where
  tagScope : TagScope := .build
  /-- Whether references may wait until the whole tree is built. -/
  deferred : Bool := true
  primaryInput : String := "Input"
  tagKey : String := "ref_id"
deriving DecidableEq, Repr

structure UnresolvedReference where
  node : NodeId
  tag : String
deriving DecidableEq

def UnresolvedReference.message (reference : UnresolvedReference) : String :=
  s!"{reference.node.label} references unknown ref_id '{reference.tag}'"

/-- An assignment that was refused, under the key that the tree gives it. -/
structure BuildFailure where
  node : NodeId
  key : String
  cause : HostError
deriving DecidableEq

def BuildFailure.message (failure : BuildFailure) : String :=
  s!"{failure.node.label}.{failure.key}: " ++ failure.cause.message

structure BuildOutput where
  /-- One node for each description at the top. -/
  roots : List NodeId := []
  /-- Every node in the order of creation. -/
  created : List NodeId := []
  /-- The first node of each tag. -/
  tags : Table String NodeId := {}
  unresolved : List UnresolvedReference := []
  failures : List BuildFailure := []
deriving DecidableEq

def BuildOutput.isClean (output : BuildOutput) : Bool :=
  output.unresolved.isEmpty && output.failures.isEmpty

/-- A build on its way: the scene, what was made, and the references that wait. -/
structure Building (σ : Type) where
  state : σ
  output : BuildOutput := {}
  waiting : List (NodeId × String) := []

/-- A step of a build, which an uncreated node ends. -/
abbrev BuildStep (σ α : Type) := ExceptT HostError (StateM (Building σ)) α

namespace Build

variable {σ : Type}

def create (host : Host σ) (type : String) : BuildStep σ NodeId := fun building =>
  match host.create type none building.state with
  | (.error cause, state) => (.error cause, { building with state })
  | (.ok node, state) =>
    (.ok node, { building with
      state, output := { building.output with created := building.output.created ++ [node] } })

def fail (node : NodeId) (key : String) (cause : HostError) (building : Building σ) : Building σ :=
  { building with
    output := { building.output with
      failures := building.output.failures ++ [⟨node, key, cause⟩] } }

/-- Runs an operation for an assignment, and records it if it is refused. -/
def attempt (node : NodeId) (key : String) (action : Action σ Unit) : BuildStep σ Unit :=
  fun building =>
    match action building.state with
    | (.ok (), state) => (.ok (), { building with state })
    | (.error cause, state) => (.ok (), fail node key cause { building with state })

def connectPrimary (host : Host σ) (options : BuildOptions) (source node : NodeId) :
    BuildStep σ Unit :=
  attempt node options.primaryInput (host.connect ⟨source, none⟩ node options.primaryInput)

/-- The inputs of a node, which are not asked for when nothing is assigned to them. -/
def inputEntries (host : Host σ) (node : NodeId) (isUnused : Bool) :
    BuildStep σ (Except HostError (List InputEntry)) := fun building =>
  (.ok (if isUnused then .ok [] else (host.reads building.state).inputEntries node), building)

def attributeOfInput (node : NodeId) (entries : Except HostError (List InputEntry)) (id : String) :
    Except HostError String :=
  match entries with
  | .error cause => .error cause
  | .ok entries =>
    match entries.find? fun entry => entry.id == id with
    | some entry => .ok entry.attr
    | none => .error (.noSuchAttribute node id)

/-- Tags a node; of several nodes with one tag the first counts. -/
def tagNode (host : Host σ) (options : BuildOptions) (node : NodeId) (tag : String) :
    BuildStep σ Unit := do
  attempt node options.tagKey (host.setTag node options.tagKey tag)
  modify fun building =>
    if building.output.tags.contains tag then building
    else { building with
      output := { building.output with tags := building.output.tags.insert tag node } }

/-- The node that has a tag, as far as the build has come. -/
def resolve? (options : BuildOptions) (reads : Reads) (output : BuildOutput) (tag : String)
    (consumer : NodeId) : Option NodeId :=
  match output.tags.find? tag with
  | some node => some node
  | none =>
    match options.tagScope with
    | .build => none
    | .document => reads.allNodes.find? fun candidate =>
        candidate != consumer && (reads.tag candidate options.tagKey).toOption.join == some tag

def leaveUnresolved (node : NodeId) (tag : String) : BuildStep σ Unit :=
  modify fun building =>
    { building with
      output := { building.output with
        unresolved := building.output.unresolved ++ [⟨node, tag⟩] } }

/-- Feeds the primary input of a node by the node that has a tag; `otherwise` is done when there is
none. -/
def feedByTag (host : Host σ) (options : BuildOptions) (node : NodeId) (tag : String)
    (otherwise : BuildStep σ Unit) : BuildStep σ Unit := fun building =>
  match resolve? options (host.reads building.state) building.output tag node with
  | some source => connectPrimary host options source node building
  | none => otherwise building

def wait (options : BuildOptions) (node : NodeId) (tag : String) : BuildStep σ Unit :=
  if options.deferred then
    modify fun building => { building with waiting := building.waiting ++ [(node, tag)] }
  else leaveUnresolved node tag

mutual

/-- Builds the node of a description and everything nested in it.  A node that is created gets its
attributes and inputs in order; then it is tagged, and its primary input is fed. -/
def build (host : Host σ) (options : BuildOptions) : NodeSpec → BuildStep σ NodeId
  | ⟨type, attrs, inputs, tag, feed⟩ => do
    let node ← create host type
    assignAttrs host options node attrs
    let entries ← inputEntries host node inputs.isEmpty
    assignInputs host options node entries inputs
    match tag with
    | some tag => tagNode host options node tag
    | none => pure ()
    feedNode host options node feed
    return node

def assignAttrs (host : Host σ) (options : BuildOptions) (node : NodeId) :
    List (String × SpecValue) → BuildStep σ Unit
  | [] => pure ()
  | entry :: rest => do
    assignAttr host options node entry
    assignAttrs host options node rest

def assignAttr (host : Host σ) (options : BuildOptions) (node : NodeId) :
    String × SpecValue → BuildStep σ Unit
  | (key, value) => assign host options node key key value

def assignInputs (host : Host σ) (options : BuildOptions) (node : NodeId)
    (entries : Except HostError (List InputEntry)) : List (String × SpecValue) → BuildStep σ Unit
  | [] => pure ()
  | entry :: rest => do
    assignInput host options node entries entry
    assignInputs host options node entries rest

/-- Assigns to one input; nothing is built for an input that the node does not have. -/
def assignInput (host : Host σ) (options : BuildOptions) (node : NodeId)
    (entries : Except HostError (List InputEntry)) : String × SpecValue → BuildStep σ Unit
  | (id, value) =>
    match attributeOfInput node entries id with
    | .ok attr => assign host options node id attr value
    | .error cause => modify (fail node id cause)

/-- Assigns to an attribute: a value is written, a nested node is built and connected. -/
def assign (host : Host σ) (options : BuildOptions) (node : NodeId) (key attr : String) :
    SpecValue → BuildStep σ Unit
  | .literal value => attempt node key (host.set node attr value)
  | .spec spec => do
    let source ← build host options spec
    attempt node key (host.connect ⟨source, none⟩ node attr)

def feedNode (host : Host σ) (options : BuildOptions) (node : NodeId) : Feed → BuildStep σ Unit
  | .nothing => pure ()
  | .node spec => do
    let source ← build host options spec
    connectPrimary host options source node
  | .tagged tag => feedByTag host options node tag (wait options node tag)

end

def buildRoots (host : Host σ) (options : BuildOptions) : List NodeSpec → BuildStep σ Unit
  | [] => pure ()
  | spec :: rest => do
    let node ← build host options spec
    modify fun building =>
      { building with output := { building.output with roots := building.output.roots ++ [node] } }
    buildRoots host options rest

def resolveWaiting (host : Host σ) (options : BuildOptions) :
    List (NodeId × String) → BuildStep σ Unit
  | [] => pure ()
  | (node, tag) :: rest => do
    feedByTag host options node tag (leaveUnresolved node tag)
    resolveWaiting host options rest

/-- Builds a whole tree, then resolves the references that wait. -/
def buildAll (host : Host σ) (options : BuildOptions) (specs : List NodeSpec) : BuildStep σ Unit := do
  buildRoots host options specs
  resolveWaiting host options (← get).waiting

end Build

/-- Builds the network that a tree describes.  Nodes created before an error stay in the scene. -/
def NodeTree.build {σ : Type} (tree : NodeTree) (host : Host σ) (options : BuildOptions) :
    Action σ BuildOutput := fun state =>
  match Build.buildAll host options tree.roots { state } with
  | (.ok (), building) => (.ok building.output, building.state)
  | (.error cause, building) => (.error cause, building.state)

end ShaderMigration
