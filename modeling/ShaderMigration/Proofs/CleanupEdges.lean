import ShaderMigration.Proofs.CleanupInvariant

namespace ShaderMigration

theorem Value.eq_of_plugAt?_none {value : Value} {plug : Plug}
    (h : value.plugAt? none = some plug) : value = .connection plug := by
  cases value with
  | connection other => simpa [plugAt?] using h
  | scalar payload => simp [plugAt?] at h
  | array items => simp [plugAt?] at h

theorem Value.eq_of_plugAt?_some {value : Value} {index : Nat} {plug : Plug}
    (h : value.plugAt? (some index) = some plug) :
    ∃ items, value = .array items ∧ index < items.length ∧
      items[index]?.bind plug? = some plug := by
  cases value with
  | connection other => simp [plugAt?] at h
  | scalar payload => simp [plugAt?] at h
  | array items =>
    obtain ⟨item, hitem, _⟩ := Option.bind_eq_some_iff.mp h
    obtain ⟨hlt, _⟩ := List.getElem?_eq_some_iff.mp hitem
    exact ⟨items, rfl, hlt, h⟩

theorem Slot.eq_of_live_array {slot : Slot} {items : List Value} (h : slot.live = .array items) :
    slot = ⟨.array items, none⟩ := by
  obtain ⟨value, input⟩ := slot
  cases input with
  | some plug => cases h
  | none =>
    cases h
    rfl

namespace Edge

/-- The edge with its child exchanged, if it feeds one of the slots. -/
def repointed (consumers : List Consumer) (new : NodeId) (edge : Edge) : Edge :=
  if edge.consumer ∈ consumers then { edge with child := new } else edge

variable {consumers : List Consumer} {new : NodeId} {edge : Edge}

theorem consumer_repointed : (edge.repointed consumers new).consumer = edge.consumer := by
  unfold repointed
  split <;> rfl

theorem repointed_of_mem (h : edge.consumer ∈ consumers) :
    edge.repointed consumers new = { edge with child := new } := if_pos h

theorem repointed_of_not_mem (h : edge.consumer ∉ consumers) :
    edge.repointed consumers new = edge := if_neg h

theorem repointed_cons (consumer : Consumer) (rest : List Consumer) :
    (edge.repointed [consumer] new).repointed rest new = edge.repointed (consumer :: rest) new := by
  by_cases hc : edge.consumer = consumer
  · have hone : edge.repointed [consumer] new = { edge with child := new } :=
      repointed_of_mem (by simpa using hc)
    have hall : edge.repointed (consumer :: rest) new = { edge with child := new } :=
      repointed_of_mem (by simp [hc])
    rw [hone, hall]
    unfold repointed
    split <;> rfl
  · have hone : edge.repointed [consumer] new = edge := repointed_of_not_mem (by simpa using hc)
    rw [hone]
    simp only [repointed, List.mem_cons, hc, false_or]

theorem map_repointed_of_forall {edges : List Edge}
    (h : ∀ edge ∈ edges, edge.consumer ∉ consumers) :
    edges.map (repointed consumers new) = edges := by
  have hid : edges.map (repointed consumers new) = edges.map id :=
    List.map_congr_left fun edge he => repointed_of_not_mem (h edge he)
  rw [hid, List.map_id]

theorem ofItems_set {parent : NodeId} {attr : String} {items : List Value} {start i : Nat}
    {plug : Plug} (h : items[i]?.bind Value.plug? = some plug) :
    ofItems parent attr start (items.set i (.connection ⟨new, plug.channel⟩)) =
      (ofItems parent attr start items).map
        (repointed [⟨parent, attr, some (start + i), plug.channel⟩] new) := by
  induction items generalizing start i with
  | nil => simp at h
  | cons item rest ih =>
    cases i with
    | zero =>
      obtain rfl : item = .connection plug := by
        cases item with
        | connection other => simpa [Value.plug?] using h
        | scalar payload => simp [Value.plug?] at h
        | array items => simp [Value.plug?] at h
      have hrest : (ofItems parent attr (start + 1) rest).map
          (repointed [⟨parent, attr, some (start + 0), plug.channel⟩] new) =
            ofItems parent attr (start + 1) rest := by
        refine map_repointed_of_forall ?_
        intro edge he
        obtain ⟨j, other, _, rfl⟩ := mem_ofItems_iff.mp he
        simp only [consumer, ofPlug, List.mem_singleton, Consumer.mk.injEq, Option.some.injEq]
        omega
      simp only [List.set_cons_zero, ofItems, List.map_cons, hrest]
      simp [repointed, consumer, ofPlug]
    | succ i =>
      have htail := @ih (start + 1) i (by simpa using h)
      rw [show start + 1 + i = start + (i + 1) by omega] at htail
      cases item with
      | connection other =>
        simp only [List.set_cons_succ, ofItems, List.map_cons, htail]
        simp [repointed, consumer, ofPlug]
      | scalar payload => simpa [ofItems] using htail
      | array items => simpa [ofItems] using htail

end Edge

namespace Scene

variable {scene : Scene} {node new : NodeId} {attr : String}

theorem attributeEdges_eq (node : NodeId) (attr : String) :
    scene.reads.attributeEdges node attr =
      ((scene.slot? node attr).map fun slot => Edge.ofValue node attr slot.live).getD [] := by
  cases hs : scene.slot? node attr with
  | none => simp [Reads.attributeEdges, reads, slot, hs, Except.map]
  | some slot => simp [Reads.attributeEdges, reads, Scene.slot, hs, Except.map]

theorem attributeNames_putSlot (slot : Slot) (other : NodeId) :
    (scene.putSlot node attr slot).reads.attributeNames other =
      scene.reads.attributeNames other := by
  unfold reads putSlot Scene.node
  simp only [Table.find?_modify]
  by_cases hn : other = node
  · subst hn
    cases scene.nodes.find? other with
    | none => simp
    | some found => simp [Except.map]
  · simp [hn]

theorem edges_putSlot {slot slot' : Slot} {index : Option Nat} {channel : Option String}
    (hslot : scene.slot? node attr = some slot)
    (hlive : Edge.ofValue node attr slot'.live =
      (Edge.ofValue node attr slot.live).map (Edge.repointed [⟨node, attr, index, channel⟩] new))
    (other : NodeId) :
    (scene.putSlot node attr slot').reads.edges other =
      (scene.reads.edges other).map (Edge.repointed [⟨node, attr, index, channel⟩] new) := by
  have hattr : ∀ name, (scene.putSlot node attr slot').reads.attributeEdges other name =
      (scene.reads.attributeEdges other name).map
        (Edge.repointed [⟨node, attr, index, channel⟩] new) := by
    intro name
    rw [attributeEdges_eq, attributeEdges_eq, slot?_putSlot]
    by_cases hhere : other = node ∧ name = attr
    · obtain ⟨rfl, rfl⟩ := hhere
      simp [hslot, hlive]
    · rw [if_neg hhere]
      symm
      refine Edge.map_repointed_of_forall ?_
      intro edge he
      cases hs : scene.slot? other name with
      | none => simp [hs] at he
      | some found =>
        obtain ⟨hparent, hname, _⟩ := mem_ofValue_iff.mp (by simpa [hs] using he)
        rw [List.mem_singleton]
        intro heq
        exact hhere ⟨hparent ▸ congrArg Consumer.parent heq, hname ▸ congrArg Consumer.attr heq⟩
  unfold Reads.edges
  rw [attributeNames_putSlot]
  cases scene.reads.attributeNames other with
  | error cause => rfl
  | ok names =>
    simp only [List.map_flatMap]
    exact congrArg names.flatMap (funext hattr)

end Scene

namespace Cleanup

/-- The consumer is a slot that shows a plug. -/
def Shown (scene : Scene) (consumer : Consumer) : Prop :=
  ∃ edge ∈ scene.reads.edges consumer.parent, edge.consumer = consumer

theorem Shown.of_repointed {scene scene' : Scene} {consumers : List Consumer} {new : NodeId}
    (hedges : ∀ node, scene'.reads.edges node =
      (scene.reads.edges node).map (Edge.repointed consumers new))
    {consumer : Consumer} (h : Shown scene consumer) : Shown scene' consumer := by
  obtain ⟨edge, hedge, heq⟩ := h
  refine ⟨edge.repointed consumers new, ?_, ?_⟩
  · rw [hedges]
    exact List.mem_map_of_mem hedge
  · rw [Edge.consumer_repointed, heq]

theorem shown_of_mem_consumers? {scene : Scene} {roots : List NodeId} {node : NodeId}
    {found : List Consumer} (h : scene.reads.consumers? roots node = some found)
    {consumer : Consumer} (hc : consumer ∈ found) : Shown scene consumer := by
  obtain ⟨parent, _, edge, hedge, _, rfl⟩ := (Reads.mem_consumers?_iff h).mp hc
  have hparent : edge.consumer.parent = parent := Scene.parent_of_mem_edges hedge
  exact ⟨edge, hparent ▸ hedge, rfl⟩

theorem repoint_edge {live : LiveScene} {edge : Edge} {node new : NodeId}
    (hedge : edge ∈ live.scene.reads.edges node) (hnew : new ∈ live.scene.nodes.keys)
    (hne : new ≠ node) :
    ∃ scene', repoint LiveScene.host edge.consumer new live =
        (.ok (), { live with scene := scene' }) ∧
      ∀ other, scene'.reads.edges other =
        (live.scene.reads.edges other).map (Edge.repointed [edge.consumer] new) := by
  obtain ⟨hparent, slot, hslot, hplug⟩ := Scene.mem_edges_iff.mp hedge
  obtain ⟨parent, attr, child, index, channel⟩ := edge
  obtain rfl : parent = node := hparent
  dsimp only at hslot hplug
  have hedit : ∀ (f : Scene → Except HostError Scene) {scene' : Scene}, f live.scene = .ok scene' →
      LiveScene.edit () f live = (.ok (), { live with scene := scene' }) := by
    intro f scene' hok
    rw [LiveScene.edit, hok]
  cases index with
  | none =>
    have hshown := Value.eq_of_plugAt?_none hplug
    have hconnect : live.scene.connect ⟨new, channel⟩ parent attr =
        .ok (live.scene.putSlot parent attr { slot with input := some ⟨new, channel⟩ }) :=
      Scene.connect_eq_ok_iff.mpr ⟨hnew, hne, slot, hslot, rfl⟩
    refine ⟨_, hedit (Scene.connect · ⟨new, channel⟩ parent attr) hconnect,
      Scene.edges_putSlot hslot ?_⟩
    rw [hshown]
    simp [Slot.live, Edge.ofValue, Edge.ofPlug, Edge.repointed, Edge.consumer]
  | some index =>
    obtain ⟨items, hshown, hlt, hitem⟩ := Value.eq_of_plugAt?_some hplug
    obtain rfl := Slot.eq_of_live_array hshown
    have hcheck : live.scene.checkPlugs (.connection ⟨new, channel⟩) = .ok () := by
      refine Scene.checkPlugs_eq_ok_iff.mpr ?_
      simpa [Value.plugs] using hnew
    have hset : live.scene.setIndexed parent attr index (.connection ⟨new, channel⟩) =
        .ok (live.scene.putSlot parent attr
          ⟨.array (items.set index (.connection ⟨new, channel⟩)), none⟩) :=
      Scene.setIndexed_eq_ok_iff.mpr ⟨hcheck, _, items, hslot, rfl, hlt, rfl⟩
    refine ⟨_, hedit (Scene.setIndexed · parent attr index (.connection ⟨new, channel⟩)) hset,
      Scene.edges_putSlot hslot ?_⟩
    change Edge.ofItems parent attr 0 (items.set index (.connection ⟨new, channel⟩)) = _
    rw [Edge.ofItems_set hitem, Nat.zero_add]
    rfl

theorem shown_repoint {live : LiveScene} {new : NodeId} {consumer other : Consumer}
    (hc : Shown live.scene consumer) (hapart : consumer.parent ≠ new)
    (h : Shown live.scene other) :
    Shown (repoint LiveScene.host consumer new live).2.scene other := by
  rcases repoint_cases consumer new live with ⟨_, _, hr⟩ | ⟨cause, heq⟩
  · have hnew : new ∈ live.scene.nodes.keys := hr.1 _ (List.mem_singleton.mpr rfl)
    obtain ⟨edge, hedge, rfl⟩ := hc
    obtain ⟨scene', heq, hedges⟩ := repoint_edge hedge hnew hapart.symm
    rw [heq]
    exact h.of_repointed hedges
  · rwa [heq]

/-- What repointings of the pairs keep, when none of them can fail: the replacements are there, and
none reads the node that it replaces. -/
structure Sound (pairs : List Replacement) (I : LiveScene → Prop)
    (C : Replacement → Consumer → Prop) : Prop extends Keeps LiveScene.host pairs I C where
  present : ∀ {live}, I live → ∀ pair ∈ pairs, pair.new ∈ live.scene.nodes.keys
  apart : ∀ {live}, I live → ∀ pair ∈ pairs, ¬ live.scene.Feeds pair.new pair.old

variable {M : Type} [Memory M] {pairs : List Replacement} {I : LiveScene → Prop}
  {C : Replacement → Consumer → Prop}

/-- A slot of another node than the replacement shows a plug, and may show the replacement. -/
structure Repointable (C : Replacement → Consumer → Prop) (pair : Replacement) (scene : Scene)
    (consumer : Consumer) : Prop where
  apart : consumer.parent ≠ pair.new
  allowed : C pair consumer
  shown : Shown scene consumer

theorem repointConsumer_edges (k : Sound pairs I C) {pair : Replacement} (hpair : pair ∈ pairs)
    {consumer : Consumer} {p : Progress LiveScene M} (hs : I p.state)
    (hc : Repointable C pair p.state.scene consumer) :
    (repointConsumer LiveScene.host pair p consumer).report.failures = p.report.failures ∧
      ∀ node, (repointConsumer LiveScene.host pair p consumer).state.scene.reads.edges node =
        (p.state.scene.reads.edges node).map (Edge.repointed [consumer] pair.new) := by
  obtain ⟨edge, hedge, rfl⟩ := hc.shown
  obtain ⟨scene', hok, hedges⟩ := repoint_edge hedge (k.present hs pair hpair) hc.apart.symm
  unfold repointConsumer
  rw [hok]
  exact ⟨rfl, hedges⟩

/-- Repointing slots fails for none of them, and exchanges the children of their edges. -/
theorem foldl_edges (k : Sound pairs I C) {pair : Replacement} (hpair : pair ∈ pairs)
    {consumers : List Consumer} {p : Progress LiveScene M} (hs : I p.state)
    (hc : ∀ consumer ∈ consumers, Repointable C pair p.state.scene consumer) :
    (consumers.foldl (repointConsumer LiveScene.host pair) p).report.failures = p.report.failures ∧
      ∀ node,
        (consumers.foldl (repointConsumer LiveScene.host pair) p).state.scene.reads.edges node =
          (p.state.scene.reads.edges node).map (Edge.repointed consumers pair.new) := by
  induction consumers generalizing p with
  | nil =>
    refine ⟨rfl, fun node => ?_⟩
    exact (Edge.map_repointed_of_forall (by simp)).symm
  | cons consumer rest ih =>
    have hfirst := hc consumer (by simp)
    obtain ⟨hfailures, hedges⟩ := repointConsumer_edges k hpair hs hfirst
    have hlater := keeps_repointConsumer k.toKeeps hs hpair hfirst.allowed
    -- a repointed edge still feeds its slot, so the other consumers remain what they were
    have hrest : ∀ other ∈ rest, Repointable C pair
        (repointConsumer LiveScene.host pair p consumer).state.scene other := by
      intro other hother
      obtain ⟨hapart, hallowed, hshown⟩ := hc other (by simp [hother])
      exact ⟨hapart, hallowed, hshown.of_repointed hedges⟩
    obtain ⟨hfailures', hedges'⟩ := ih hlater hrest
    refine ⟨hfailures'.trans hfailures, fun node => ?_⟩
    rw [List.foldl_cons, hedges', hedges, List.map_map]
    exact List.map_congr_left fun edge _ => Edge.repointed_cons consumer rest

end Cleanup

end ShaderMigration
