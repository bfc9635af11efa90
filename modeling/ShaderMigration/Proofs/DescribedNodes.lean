import ShaderMigration.NodeSpec.Build
import ShaderMigration.Proofs.SceneFrame

namespace ShaderMigration

/-- Tags are looked for within the build, and references may wait. -/
structure BuildOptions.Deferring (options : BuildOptions) : Prop where
  scope : options.tagScope = .build
  deferred : options.deferred = true

/-- The inputs that a new node of a schema has. -/
def Schema.inputEntries (schema : Schema) : List InputEntry :=
  if schema.inputIds.isEmpty then Host.entriesOfNames schema.attributes.keys
  else (schema.inputIds.entries.filter fun entry => schema.attributes.contains entry.2).map
    fun entry => ⟨entry.1, entry.2⟩

def Scene.Declares (scene : Scene) (node : NodeId) (type : String) : Prop :=
  ∃ found schema, scene.nodes.find? node = some found ∧ found.type = type ∧
    scene.schemas.find? type = some schema ∧ found.attributes.keys = schema.attributes.keys

theorem Scene.Declares.inputEntries_eq {scene : Scene} {node : NodeId} {type : String}
    (h : scene.Declares node type) : ∃ schema, scene.schemas.find? type = some schema ∧
      scene.inputEntries node = .ok schema.inputEntries := by
  obtain ⟨found, schema, hfound, rfl, hschema, hkeys⟩ := h
  have hcontains : ∀ attr, found.attributes.contains attr = schema.attributes.contains attr := by
    intro attr
    rw [Bool.eq_iff_iff, Table.contains_iff, Table.contains_iff, hkeys]
  refine ⟨schema, hschema, ?_⟩
  unfold inputEntries Schema.inputEntries
  rw [Scene.node_eq_ok_iff.mpr hfound]
  simp only [bind, Except.bind, hschema, Option.map_some, Option.getD_some, hkeys, hcontains]
  split <;> rfl

theorem Scene.Declares.mem_keys {scene : Scene} {node : NodeId} {type : String}
    (h : scene.Declares node type) : node ∈ scene.nodes.keys := by
  obtain ⟨found, _, hfound, _⟩ := h
  exact Table.mem_keys_iff.mpr ⟨found, hfound⟩

theorem LiveScene.Extends.declares_made {touched : List NodeId} {made : List (NodeId × String)}
    {before after : LiveScene} (h : before.Extends touched made after) {node : NodeId}
    {type : String} (hmade : (node, type) ∈ made) {schema : Schema}
    (hschema : before.scene.schemas.find? type = some schema) :
    after.scene.Declares node type := by
  obtain ⟨found, hfound, _, htype, hkeys⟩ := h.node _ hmade
  refine ⟨found, schema, hfound, htype, h.schemas ▸ hschema, hkeys.trans ?_⟩
  rw [Scene.freshSlots, hschema]
  simp [Table.keys, Table.map, Entries.keys, Function.comp_def]

theorem LiveScene.Extends.declares {touched : List NodeId} {made : List (NodeId × String)}
    {before after : LiveScene} (h : before.Extends touched made after) {node : NodeId}
    {type : String} (hnode : before.scene.Declares node type) :
    after.scene.Declares node type := by
  obtain ⟨found, schema, hfound, rfl, hschema, hkeys⟩ := hnode
  obtain ⟨found', hfound', _, htype, hkeys'⟩ := h.kept hfound
  exact ⟨found', schema, hfound', htype, h.schemas ▸ hschema, hkeys'.trans hkeys⟩

def Feed.reference? : Feed → Option String
  | .tagged tag => some tag
  | _ => none

theorem Feed.reference?_eq_some_iff {feed : Feed} {tag : String} :
    feed.reference? = some tag ↔ feed = .tagged tag := by
  cases feed <;> simp [Feed.reference?]

namespace NodeSpec

def hasInput (schemas : Table String Schema) (type id : String) : Bool :=
  (schemas.find? type).any fun schema => schema.inputEntries.any fun entry => entry.id == id

mutual

/-- The descriptions that nodes are made for, in the order in which they are created: a description
itself, then those nested in its attributes, in the inputs that its type has, and in what feeds
it. -/
def described (schemas : Table String Schema) : NodeSpec → List NodeSpec
  | ⟨type, attrs, inputs, tag, feed⟩ =>
    ⟨type, attrs, inputs, tag, feed⟩ :: (describedEntries schemas (fun _ => true) attrs ++
      (describedEntries schemas (hasInput schemas type) inputs ++ describedFeed schemas feed))

def describedEntries (schemas : Table String Schema) (known : String → Bool) :
    List (String × SpecValue) → List NodeSpec
  | [] => []
  | entry :: rest => describedEntry schemas known entry ++ describedEntries schemas known rest

def describedEntry (schemas : Table String Schema) (known : String → Bool) :
    String × SpecValue → List NodeSpec
  | (key, value) => if known key then describedValue schemas value else []

def describedValue (schemas : Table String Schema) : SpecValue → List NodeSpec
  | .literal _ => []
  | .spec spec => described schemas spec

def describedFeed (schemas : Table String Schema) : Feed → List NodeSpec
  | .node spec => described schemas spec
  | _ => []

end

end NodeSpec

def NodeTree.described (tree : NodeTree) (schemas : Table String Schema) : List NodeSpec :=
  tree.roots.flatMap fun spec => spec.described schemas

namespace Build

/-- The nodes of which the description has a text of some kind, each with the text. -/
def labels (label : NodeSpec → Option String) (built : List (NodeId × NodeSpec)) :
    List (NodeId × String) :=
  built.flatMap fun entry => (label entry.2).toList.map fun text => (entry.1, text)

abbrev tagsOf (built : List (NodeId × NodeSpec)) : List (NodeId × String) :=
  labels NodeSpec.tag built

abbrev referencesOf (built : List (NodeId × NodeSpec)) : List (NodeId × String) :=
  labels (fun spec => spec.feed.reference?) built

theorem labels_append (label : NodeSpec → Option String) (first rest : List (NodeId × NodeSpec)) :
    labels label (first ++ rest) = labels label first ++ labels label rest :=
  List.flatMap_append

theorem mem_labels_iff {label : NodeSpec → Option String} {built : List (NodeId × NodeSpec)}
    {node : NodeId} {text : String} :
    (node, text) ∈ labels label built ↔ ∃ spec, (node, spec) ∈ built ∧ label spec = some text := by
  unfold labels
  rw [List.mem_flatMap]
  constructor
  · intro h
    obtain ⟨⟨id, spec⟩, hmem, h⟩ := h
    obtain ⟨_, htext, heq⟩ := List.mem_map.mp h
    obtain ⟨rfl, rfl⟩ := Prod.mk.inj heq
    exact ⟨spec, hmem, Option.mem_toList.mp htext⟩
  · intro h
    obtain ⟨spec, hmem, htext⟩ := h
    exact ⟨_, hmem, List.mem_map.mpr ⟨text, Option.mem_toList.mpr htext, rfl⟩⟩

theorem map_fst_labels_sublist (label : NodeSpec → Option String)
    (built : List (NodeId × NodeSpec)) :
    ((labels label built).map Prod.fst).Sublist (built.map Prod.fst) := by
  induction built with
  | nil => exact .refl _
  | cons entry rest ih =>
    unfold labels at ih ⊢
    rw [List.flatMap_cons, List.map_append, List.map_cons]
    cases label entry.2 with
    | none => exact ih.cons _
    | some text => exact ih.cons_cons _

end Build

end ShaderMigration
