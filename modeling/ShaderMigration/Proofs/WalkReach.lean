import ShaderMigration.Graph.Consumer
import ShaderMigration.Proofs.OptionalLists
import ShaderMigration.Proofs.PlugGraph
import Mathlib.Data.List.Perm.Subperm

namespace ShaderMigration

/-- The plug that a value shows at an index of an array, or as a whole. -/
def Value.plugAt? : Value → Option Nat → Option Plug
  | .connection plug, none => some plug
  | .array items, some index => items[index]?.bind plug?
  | _, _ => none

theorem mem_ofItems_iff {parent : NodeId} {attr : String} {items : List Value} {start : Nat}
    {edge : Edge} :
    edge ∈ Edge.ofItems parent attr start items ↔
      ∃ i plug, items[i]?.bind Value.plug? = some plug ∧
        edge = Edge.ofPlug parent attr (some (start + i)) plug := by
  induction items generalizing start with
  | nil => simp [Edge.ofItems]
  | cons item rest ih =>
    have hsplit : (∃ i plug, (item :: rest)[i]?.bind Value.plug? = some plug ∧
          edge = Edge.ofPlug parent attr (some (start + i)) plug) ↔
        (∃ plug, item.plug? = some plug ∧ edge = Edge.ofPlug parent attr (some start) plug) ∨
          ∃ i plug, rest[i]?.bind Value.plug? = some plug ∧
            edge = Edge.ofPlug parent attr (some (start + 1 + i)) plug := by
      have hindex : ∀ i, start + (i + 1) = start + 1 + i := fun i => by omega
      constructor
      · intro h
        obtain ⟨i, plug, hplug, rfl⟩ := h
        cases i with
        | zero => exact Or.inl ⟨plug, by simpa using hplug, rfl⟩
        | succ i => exact Or.inr ⟨i, plug, by simpa using hplug, by rw [hindex i]⟩
      · intro h
        rcases h with ⟨plug, hplug, rfl⟩ | ⟨i, plug, hplug, rfl⟩
        · exact ⟨0, plug, by simpa using hplug, rfl⟩
        · exact ⟨i + 1, plug, by simpa using hplug, by rw [hindex i]⟩
    rw [hsplit, ← ih]
    cases item with
    | connection plug => simp [Edge.ofItems, Value.plug?]
    | scalar payload => simp [Edge.ofItems, Value.plug?]
    | array items => simp [Edge.ofItems, Value.plug?]

theorem mem_ofValue_iff {parent : NodeId} {attr : String} {value : Value} {edge : Edge} :
    edge ∈ Edge.ofValue parent attr value ↔ edge.parent = parent ∧ edge.attr = attr ∧
      value.plugAt? edge.index = some ⟨edge.child, edge.channel⟩ := by
  obtain ⟨p, a, child, index, channel⟩ := edge
  cases value with
  | scalar payload => simp [Edge.ofValue, Value.plugAt?]
  | connection plug =>
    obtain ⟨node, ch⟩ := plug
    cases index with
    | none =>
      simp [Edge.ofValue, Edge.ofPlug, Value.plugAt?]
      tauto
    | some index => simp [Edge.ofValue, Edge.ofPlug, Value.plugAt?]
  | array items =>
    simp only [Edge.ofValue, mem_ofItems_iff, Edge.ofPlug, Edge.mk.injEq, Nat.zero_add]
    constructor
    · intro h
      obtain ⟨i, plug, hplug, rfl, rfl, rfl, rfl, rfl⟩ := h
      exact ⟨rfl, rfl, hplug⟩
    · intro h
      obtain ⟨rfl, rfl, hplug⟩ := h
      cases index with
      | none => simp [Value.plugAt?] at hplug
      | some i => exact ⟨i, _, hplug, rfl, rfl, rfl, rfl, rfl⟩

theorem mem_plugs_of_plugAt? {value : Value} {index : Option Nat} {plug : Plug}
    (h : value.plugAt? index = some plug) : plug ∈ value.plugs := by
  cases value with
  | scalar payload => simp [Value.plugAt?] at h
  | connection p =>
    cases index with
    | none => cases h; simp [Value.plugs]
    | some i => simp [Value.plugAt?] at h
  | array items =>
    cases index with
    | none => simp [Value.plugAt?] at h
    | some i =>
      obtain ⟨item, hitem, hplug⟩ := Option.bind_eq_some_iff.mp h
      rw [Value.plugs, Value.plugsOf_eq_flatMap]
      refine List.mem_flatMap.mpr ⟨item, List.mem_of_getElem? hitem, ?_⟩
      cases item with
      | connection p => cases hplug; simp [Value.plugs]
      | scalar payload => simp [Value.plug?] at hplug
      | array items => simp [Value.plug?] at hplug

namespace Scene

variable {scene : Scene} {node : NodeId} {edge : Edge}

theorem mem_edges_iff :
    edge ∈ scene.reads.edges node ↔ edge.parent = node ∧
      ∃ slot, scene.slot? node edge.attr = some slot ∧
        slot.live.plugAt? edge.index = some ⟨edge.child, edge.channel⟩ := by
  have hattr : ∀ attr, edge ∈ scene.reads.attributeEdges node attr ↔ edge.parent = node ∧
      edge.attr = attr ∧ ∃ slot, scene.slot? node attr = some slot ∧
        slot.live.plugAt? edge.index = some ⟨edge.child, edge.channel⟩ := by
    intro attr
    cases hs : scene.slot? node attr with
    | none => simp [Reads.attributeEdges, reads, slot, hs, Except.map]
    | some slot => simp [Reads.attributeEdges, reads, Scene.slot, hs, Except.map, mem_ofValue_iff]
  cases hn : scene.nodes.find? node with
  | none => simp [Reads.edges, reads, Scene.node, hn, Except.map, slot?]
  | some found =>
    have hedges : scene.reads.edges node =
        found.attributes.keys.flatMap (scene.reads.attributeEdges node) := by
      simp [Reads.edges, reads, Scene.node, hn, Except.map]
    rw [hedges, List.mem_flatMap]
    simp only [hattr]
    constructor
    · intro h
      obtain ⟨attr, _, hparent, rfl, hslot⟩ := h
      exact ⟨hparent, hslot⟩
    · intro h
      obtain ⟨hparent, slot, hslot, hplug⟩ := h
      have hkey : found.attributes.find? edge.attr = some slot := by simpa [slot?, hn] using hslot
      exact ⟨edge.attr, Table.mem_keys_iff.mpr ⟨slot, hkey⟩, hparent, rfl, slot, hslot, hplug⟩

theorem parent_of_mem_edges (h : edge ∈ scene.reads.edges node) : edge.parent = node :=
  (mem_edges_iff.mp h).1

theorem feeds_of_mem_edges (h : edge ∈ scene.reads.edges node) : scene.Feeds node edge.child := by
  obtain ⟨_, slot, hslot, hplug⟩ := mem_edges_iff.mp h
  exact ⟨edge.attr, slot, hslot, _, plugs_of_live (mem_plugs_of_plugAt? hplug), rfl⟩

theorem eq_of_consumer_eq {other : Edge} (h : edge ∈ scene.reads.edges node)
    (h' : other ∈ scene.reads.edges node) (heq : edge.consumer = other.consumer) :
    edge = other := by
  obtain ⟨hparent, slot, hslot, hplug⟩ := mem_edges_iff.mp h
  obtain ⟨hparent', slot', hslot', hplug'⟩ := mem_edges_iff.mp h'
  obtain ⟨p, a, child, index, channel⟩ := edge
  obtain ⟨p', a', child', index', channel'⟩ := other
  obtain ⟨rfl, rfl, rfl, rfl⟩ := Consumer.mk.inj heq
  have hsame : slot = slot' := Option.some.inj (hslot.symm.trans hslot')
  subst hsame
  have hchild : child = child' := congrArg Plug.node (Option.some.inj (hplug.symm.trans hplug'))
  rw [hchild]

end Scene

section Walks

variable {edges : NodeId → List Edge} {root : NodeId}

/-- An edge of `a` leads to `b`. -/
def Leads (edges : NodeId → List Edge) (a b : NodeId) : Prop := ∃ edge ∈ edges a, edge.child = b

theorem mem_walkWithin_iff {depth : Nat} {walk : List Edge}
    (h : walkWithin edges depth root = some walk) (edge : Edge) :
    edge ∈ walk ↔ ∃ node, Relation.ReflTransGen (Leads edges) root node ∧ edge ∈ edges node := by
  induction depth generalizing root walk edge with
  | zero =>
    unfold walkWithin at h
    split at h
    next hempty =>
      cases h
      have hnil : edges root = [] := List.isEmpty_iff.mp hempty
      constructor
      · simp
      · intro hh
        obtain ⟨node, path, hedge⟩ := hh
        rcases path.cases_head with rfl | ⟨mid, ⟨first, hfirst, _⟩, _⟩
        · simp [hnil] at hedge
        · simp [hnil] at hfirst
    next => cases h
  | succ depth ih =>
    obtain ⟨parts, hparts, rfl⟩ := Option.map_eq_some_iff.mp h
    obtain ⟨hto, hfrom⟩ := mapM_eq_some_mem hparts
    rw [List.mem_flatten]
    constructor
    · intro hh
      obtain ⟨part, hpart, hedge⟩ := hh
      obtain ⟨first, hfirst, hwalk⟩ := hfrom part hpart
      obtain ⟨below, hbelow, rfl⟩ := Option.map_eq_some_iff.mp hwalk
      rcases List.mem_cons.mp hedge with rfl | hedge
      · exact ⟨root, .refl, hfirst⟩
      · obtain ⟨node, path, hnode⟩ := (ih hbelow edge).mp hedge
        exact ⟨node, path.head ⟨first, hfirst, rfl⟩, hnode⟩
    · intro hh
      obtain ⟨node, path, hedge⟩ := hh
      rcases path.cases_head with rfl | ⟨mid, ⟨first, hfirst, rfl⟩, path⟩
      · obtain ⟨part, hpart, hwalk⟩ := hto edge hedge
        obtain ⟨below, _, rfl⟩ := Option.map_eq_some_iff.mp hwalk
        exact ⟨_, hpart, by simp⟩
      · obtain ⟨part, hpart, hwalk⟩ := hto first hfirst
        obtain ⟨below, hbelow, rfl⟩ := Option.map_eq_some_iff.mp hwalk
        exact ⟨_, hpart, List.mem_cons_of_mem _ ((ih hbelow edge).mpr ⟨node, path, hedge⟩)⟩

/-- A walk depends on the edges of the nodes that it comes to, and on no others. -/
theorem walkWithin_congr {edges' : NodeId → List Edge} {depth : Nat}
    (h : ∀ node, Relation.ReflTransGen (Leads edges) root node → edges node = edges' node) :
    walkWithin edges depth root = walkWithin edges' depth root := by
  induction depth generalizing root with
  | zero =>
    unfold walkWithin
    rw [h root .refl]
  | succ depth ih =>
    unfold walkWithin
    rw [← h root .refl]
    congr 1
    refine mapM_option_congr fun edge hedge => ?_
    rw [ih fun node path => h node (path.head ⟨edge, hedge, rfl⟩)]

/-- A walk that does not end within a depth follows a path of that many nodes with edges. -/
theorem path_of_walkWithin_eq_none {depth : Nat} (h : walkWithin edges depth root = none) :
    ∃ path : List NodeId, path.length = depth + 1 ∧ path.head? = some root ∧
      path.IsChain (Leads edges) ∧ ∀ node ∈ path, edges node ≠ [] := by
  induction depth generalizing root with
  | zero =>
    unfold walkWithin at h
    split at h
    next => cases h
    next hempty =>
      exact ⟨[root], rfl, rfl, .singleton root, by simpa using hempty⟩
  | succ depth ih =>
    have hmap := Option.map_eq_none_iff.mp h
    obtain ⟨first, hfirst, hnone⟩ : ∃ first ∈ edges root,
        walkWithin edges depth first.child = none := by
      by_contra hall
      have hsome : ((edges root).mapM fun edge =>
          (walkWithin edges depth edge.child).map fun below => edge :: below).isSome := by
        refine isSome_mapM _ ?_
        intro edge hedge
        rw [Option.isSome_map, ← Option.ne_none_iff_isSome]
        exact fun hn => hall ⟨edge, hedge, hn⟩
      simp [hmap] at hsome
    obtain ⟨path, hlength, hhead, hchain, hedges⟩ := ih hnone
    refine ⟨root :: path, by simp [hlength], rfl, ?_, ?_⟩
    · cases path with
      | nil => simp at hhead
      | cons node rest =>
        cases hhead
        exact List.isChain_cons_cons.mpr ⟨⟨first, hfirst, rfl⟩, hchain⟩
    · intro node hnode
      rcases List.mem_cons.mp hnode with rfl | hnode
      · exact List.ne_nil_of_mem hfirst
      · exact hedges node hnode

end Walks

namespace Scene

variable {scene : Scene}

theorem feeds_of_leads {a b : NodeId} (h : Leads scene.reads.edges a b) : scene.Feeds a b := by
  obtain ⟨edge, hedge, rfl⟩ := h
  exact feeds_of_mem_edges hedge

theorem nodup_of_isChain {path : List NodeId}
    (h : ∀ node ∈ path, ¬ Relation.TransGen (Leads scene.reads.edges) node node)
    (hpath : path.IsChain (Leads scene.reads.edges)) : path.Nodup := by
  have hchain : path.IsChain (Relation.TransGen (Leads scene.reads.edges)) :=
    hpath.imp fun a b hab => .single hab
  refine (List.isChain_iff_pairwise.mp hchain).imp_of_mem ?_
  intro a b ha _ hab heq
  exact h a ha (heq ▸ hab)

/-- The walk of a node ends when no node that it comes to lies on a cycle. -/
theorem isSome_walk? {root : NodeId}
    (h : ∀ node, Relation.ReflTransGen (Leads scene.reads.edges) root node →
      ¬ Relation.TransGen (Leads scene.reads.edges) node node) :
    (scene.reads.walk? root).isSome := by
  rw [← Option.ne_none_iff_isSome]
  intro hnone
  obtain ⟨path, hlength, hhead, hchain, hedges⟩ := path_of_walkWithin_eq_none hnone
  have hcome : ∀ node ∈ path, Relation.ReflTransGen (Leads scene.reads.edges) root node := by
    obtain ⟨rest, rfl⟩ := List.head?_eq_some_iff.mp hhead
    have hsteps : (root :: rest).IsChain (Relation.ReflTransGen (Leads scene.reads.edges)) :=
      hchain.imp fun a b hab => .single hab
    intro node hnode
    rcases List.mem_cons.mp hnode with rfl | hnode
    · exact .refl
    · exact (List.pairwise_cons.mp (List.isChain_iff_pairwise.mp hsteps)).1 node hnode
  -- no node comes twice, so the path is no longer than there are nodes
  have hnodup := nodup_of_isChain (fun node hnode => h node (hcome node hnode)) hchain
  have hsub : path ⊆ scene.nodes.keys := by
    intro node hnode
    obtain ⟨edge, hedge⟩ := List.exists_mem_of_ne_nil _ (hedges node hnode)
    exact mem_keys_of_feeds (feeds_of_mem_edges hedge)
  have hle := (hnodup.subperm hsub).length_le
  have hall : scene.reads.allNodes.length = scene.nodes.keys.length := rfl
  omega

theorem Acyclic.not_leads_self (h : scene.Acyclic) (node : NodeId) :
    ¬ Relation.TransGen (Leads scene.reads.edges) node node :=
  fun hcycle => h node (Relation.TransGen.mono (fun _ _ => feeds_of_leads) _ _ hcycle)

theorem Acyclic.isSome_walk? (h : scene.Acyclic) (root : NodeId) :
    (scene.reads.walk? root).isSome :=
  Scene.isSome_walk? fun node _ => h.not_leads_self node

end Scene

end ShaderMigration
