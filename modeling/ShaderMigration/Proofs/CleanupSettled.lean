import ShaderMigration.Proofs.CleanupEdges
import ShaderMigration.Proofs.ReplacementChain

namespace ShaderMigration

open Replacement (heir)

/-- The edge with its child exchanged for the node that stands for it after the replacements. -/
def Edge.inherited (pairs : List Replacement) (edge : Edge) : Edge :=
  { edge with child := heir pairs edge.child }

/-- Where exactly the edges to the old node are repointed, the children are those that stand for
them after one more replacement. -/
theorem Edge.map_inherited_concat {done : List Replacement} {pair : Replacement}
    {consumers : List Consumer} {edges : List Edge}
    (h : ∀ edge ∈ edges, edge.consumer ∈ consumers ↔ heir done edge.child = pair.old) :
    (edges.map (Edge.inherited done)).map (Edge.repointed consumers pair.new) =
      edges.map (Edge.inherited (done ++ [pair])) := by
  rw [List.map_map]
  refine List.map_congr_left fun edge hedge => ?_
  have hsame : (edge.inherited done).consumer = edge.consumer := rfl
  rw [Function.comp_apply]
  by_cases hchild : heir done edge.child = pair.old
  · have hmem := (h edge hedge).mpr hchild
    rw [Edge.repointed_of_mem (hsame ▸ hmem)]
    simp only [Edge.inherited, Replacement.heir_concat, if_pos hchild]
  · have hmem : edge.consumer ∉ consumers := fun hm => hchild ((h edge hedge).mp hm)
    rw [Edge.repointed_of_not_mem (hsame ▸ hmem)]
    simp only [Edge.inherited, Replacement.heir_concat, if_neg hchild]

theorem Reads.Reached.of_repointed {reads reads' : Reads} {roots : List NodeId} {node new : NodeId}
    {consumers : List Consumer} (hnew : new ∈ roots)
    (hedges : ∀ node, reads'.edges node = (reads.edges node).map (Edge.repointed consumers new))
    (h : reads'.Reached roots node) : reads.Reached roots node := by
  obtain ⟨root, hroot, path⟩ := h
  induction path with
  | refl => exact reached_of_mem hroot
  | tail _ hlast ih =>
    obtain ⟨edge, hedge, rfl⟩ := hlast
    rw [hedges] at hedge
    obtain ⟨before, hbefore, rfl⟩ := List.mem_map.mp hedge
    by_cases hc : before.consumer ∈ consumers
    · rw [Edge.repointed_of_mem hc]
      exact reached_of_mem hnew
    · rw [Edge.repointed_of_not_mem hc]
      exact ih.child hbefore

namespace Cleanup

variable {M : Type} {pairs done : List Replacement} {I : LiveScene → Prop}
  {C : Replacement → Consumer → Prop} {before : Scene} {roots : List NodeId}
  {p : Progress LiveScene M}

/-- A cleanup of the pairs once those in `done` are handled: nothing has failed, the edges of the
reached nodes that were not replaced are inherited from before the cleanup, and those of the replaced
ones are as they were. -/
structure Settled (I : LiveScene → Prop) (pairs done : List Replacement) (before : Scene)
    (roots : List NodeId) (p : Progress LiveScene M) : Prop where
  held : I p.state
  plain : p.resolver.memo = none
  rooted : p.resolver.roots = roots
  clean : p.report.failures = []
  edges : ∀ node, p.state.scene.reads.Reached roots node → node ∉ pairs.map Replacement.old →
    p.state.scene.reads.edges node = (before.reads.edges node).map (Edge.inherited done)
  replaced : ∀ node ∈ pairs.map Replacement.old,
    p.state.scene.reads.edges node = before.reads.edges node

variable [Memory M]

theorem settled_initial (pairs : List Replacement) {live : LiveScene} (h : I live) :
    Settled (M := M) I (Cleanup.replaced pairs) [] live.scene
      (initial LiveScene.host ⟨0, true⟩ pairs live : Progress LiveScene M).resolver.roots
      (initial LiveScene.host ⟨0, true⟩ pairs live) where
  held := h
  plain := memo_initial true pairs live
  rooted := rfl
  clean := rfl
  edges := fun _ _ _ => (List.map_id _).symm
  replaced := fun _ _ => rfl

/-- The edges to the old node of a pair, at reached nodes that were not replaced, are exactly those
whose consumers are kept for repointing. -/
theorem mem_kept_of_reached (k : Sound pairs I C) {live : LiveScene} (hs : I live)
    {pair : Replacement} (hpair : pair ∈ pairs) {found : List Consumer}
    (hfound : live.scene.reads.consumers? roots pair.old = some found) {node : NodeId}
    (hreached : live.scene.reads.Reached roots node) (hnode : node ∉ pairs.map Replacement.old)
    {edge : Edge} (hedge : edge ∈ live.scene.reads.edges node) :
    edge.consumer ∈ kept (pairs.map Replacement.old) pair found ↔ edge.child = pair.old := by
  have hparent : edge.parent = node := Scene.parent_of_mem_edges hedge
  rw [mem_kept_iff, Reads.mem_consumers?_iff hfound]
  constructor
  · intro h
    obtain ⟨⟨other, _, shown, hshown, hchild, heq⟩, _⟩ := h
    have hother : shown.parent = other := Scene.parent_of_mem_edges hshown
    have hsame : other = node := by
      rw [← hother, ← hparent]
      exact congrArg Consumer.parent heq
    rw [← Scene.eq_of_consumer_eq (hsame ▸ hshown) hedge heq]
    exact hchild
  · intro hchild
    have hkept : edge.consumer.parent ∉ pairs.map Replacement.old := by
      rwa [← hparent] at hnode
    refine ⟨⟨node, hreached, edge, hedge, hchild, rfl⟩, hkept, ?_⟩
    intro hnew
    have hfeeds := Scene.feeds_of_mem_edges hedge
    have hnode' : node = pair.new := hparent.symm.trans hnew
    rw [hnode', hchild] at hfeeds
    exact k.apart hs pair hpair hfeeds

theorem repointable_of_mem_kept (k : Sound pairs I C) {live : LiveScene} (hs : I live)
    {pair : Replacement} {found : List Consumer}
    (hfound : live.scene.reads.consumers? roots pair.old = some found) {consumer : Consumer}
    (hc : consumer ∈ kept (pairs.map Replacement.old) pair found) :
    Repointable C pair live.scene consumer := by
  obtain ⟨hmem, _, hapart⟩ := mem_kept_iff.mp hc
  obtain ⟨parent, _, edge, hedge, hchild, rfl⟩ := (Reads.mem_consumers?_iff hfound).mp hmem
  exact ⟨hapart, k.found hs hedge hchild, shown_of_mem_consumers? hfound hmem⟩

theorem Settled.step (k : Sound pairs I C) (h : Settled I pairs done before roots p)
    {pair : Replacement} (hpair : pair ∈ pairs) (hnew : pair.new ∈ roots) :
    ∃ later, repointPair? LiveScene.host (pairs.map Replacement.old) p pair = some later ∧
      Settled I pairs (done ++ [pair]) before roots later := by
  obtain ⟨found, hfound, heq, hkept⟩ := keeps_repointPair? k.toKeeps (pairs.map Replacement.old)
    h.held h.plain hpair
  rw [h.rooted] at hfound
  obtain ⟨hfailures, hedges⟩ := foldl_edges k hpair h.held fun consumer hc =>
    repointable_of_mem_kept k h.held hfound hc
  have hresolver := resolver_foldl LiveScene.host pair
    (kept (pairs.map Replacement.old) pair found) h.plain
  refine ⟨_, heq, hkept, ?_, ?_, hfailures.trans h.clean, ?_, ?_⟩
  · rw [hresolver, h.plain]
  · rw [hresolver, h.rooted]
  · intro node hreached hnode
    have hreached' := hreached.of_repointed hnew hedges
    have hnow := h.edges node hreached' hnode
    rw [hedges, hnow]
    refine Edge.map_inherited_concat fun edge hedge => ?_
    have hmem : edge.inherited done ∈ p.state.scene.reads.edges node := by
      rw [hnow]
      exact List.mem_map_of_mem hedge
    exact mem_kept_of_reached k h.held hpair hfound hreached' hnode hmem
  · intro node hnode
    rw [hedges, ← h.replaced node hnode]
    refine Edge.map_repointed_of_forall fun edge hedge hc => ?_
    have hparent : edge.consumer.parent = node := Scene.parent_of_mem_edges hedge
    exact (mem_kept_iff.mp hc).2.1 (hparent ▸ hnode)

theorem Settled.run (k : Sound pairs I C) (h : Settled I pairs done before roots p)
    {rest : List Replacement} (hrest : rest ⊆ pairs)
    (hroots : ∀ pair ∈ pairs, pair.new ∈ roots) :
    ∃ later, rest.foldlM (repointPair? LiveScene.host (pairs.map Replacement.old)) p = some later ∧
      Settled I pairs (done ++ rest) before roots later := by
  induction rest generalizing p done with
  | nil => exact ⟨p, rfl, by rwa [List.append_nil]⟩
  | cons pair rest ih =>
    obtain ⟨hpair, hrest⟩ := List.cons_subset.mp hrest
    obtain ⟨next, hnext, hsettled⟩ := h.step k hpair (hroots pair hpair)
    obtain ⟨later, hlater, hend⟩ := ih hsettled hrest
    refine ⟨later, ?_, ?_⟩
    · rw [List.foldlM_cons, hnext]
      exact hlater
    · rwa [List.append_assoc, List.singleton_append] at hend

/-- A cleanup from the replacements too, without a memory, settles all its pairs. -/
theorem settled_of_sound (k : Sound (Cleanup.replaced pairs) I C) {live : LiveScene} (hs : I live) :
    ∃ p : Progress LiveScene M,
      cleanUp? (M := M) LiveScene.host ⟨0, true⟩ pairs live = some (p.report, p.state) ∧
      Settled I (Cleanup.replaced pairs) (Cleanup.replaced pairs) live.scene
        (initial LiveScene.host ⟨0, true⟩ pairs live : Progress LiveScene M).resolver.roots p := by
  have hstart := settled_initial (M := M) pairs hs
  obtain ⟨p, hfold, hp⟩ := hstart.run k (List.Subset.refl _)
    fun pair hpair => mem_roots_initial_iff.mpr (Or.inr (List.mem_map_of_mem hpair))
  exact ⟨p, by rw [cleanUp?_eq, hfold, Option.map_some], hp⟩

end Cleanup

end ShaderMigration
