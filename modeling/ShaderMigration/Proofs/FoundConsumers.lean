import ShaderMigration.Proofs.CleanupInvariant
import ShaderMigration.Proofs.LazyWalks

namespace ShaderMigration

section FirstPlaces

variable {α β : Type} [DecidableEq α] [DecidableEq β]

theorem idxOf_map {f : α → β} (hf : Function.Injective f) (items : List α) (item : α) :
    (items.map f).idxOf (f item) = items.idxOf item := by
  induction items with
  | nil => rfl
  | cons head rest ih => simp [List.idxOf_cons, hf.beq_eq, ih]

theorem idxOf_lt_of_filter {items : List α} {keep : α → Bool} {a b : α} (ha : keep a) (hb : keep b)
    (h : (items.filter keep).idxOf a < (items.filter keep).idxOf b) :
    items.idxOf a < items.idxOf b := by
  induction items with
  | nil => simp at h
  | cons head rest ih =>
    by_cases hheada : head = a
    · subst hheada
      have hne : head ≠ b := by
        intro heq
        subst heq
        exact Nat.lt_irrefl _ h
      rw [List.idxOf_cons_self, List.idxOf_cons_ne _ hne]
      exact Nat.succ_pos _
    · have hheadb : head ≠ b := by
        intro heq
        subst heq
        simp [hb] at h
      rw [List.idxOf_cons_ne _ hheada, List.idxOf_cons_ne _ hheadb]
      refine Nat.succ_lt_succ (ih ?_)
      by_cases hkeep : keep head
      · rw [List.filter_cons_of_pos hkeep, List.idxOf_cons_ne _ hheada,
          List.idxOf_cons_ne _ hheadb] at h
        exact Nat.lt_of_succ_lt_succ h
      · rwa [List.filter_cons_of_neg hkeep] at h

/-- Without its repetitions, a list is in the order of the first places of its items. -/
theorem pairwise_idxOf_eraseDups (items : List α) :
    items.eraseDups.Pairwise fun a b => items.idxOf a < items.idxOf b := by
  match items with
  | [] => exact List.Pairwise.nil
  | head :: rest =>
    have hrest := pairwise_idxOf_eraseDups (rest.filter fun item => !item == head)
    have hother : ∀ item ∈ (rest.filter fun item => !item == head).eraseDups, head ≠ item := by
      intro item hitem heq
      have hkept := (List.mem_filter.mp (List.mem_eraseDups.mp hitem)).2
      simp [heq] at hkept
    rw [List.eraseDups_cons]
    refine List.pairwise_cons.mpr ⟨fun item hitem => ?_, hrest.imp_of_mem ?_⟩
    · rw [List.idxOf_cons_self, List.idxOf_cons_ne _ (hother item hitem)]
      exact Nat.succ_pos _
    · intro a b ha hb hlt
      rw [List.idxOf_cons_ne _ (hother a ha), List.idxOf_cons_ne _ (hother b hb)]
      have hkeep : ∀ item, head ≠ item → (!item == head) = true := by
        intro item hne
        simpa using hne.symm
      exact Nat.succ_lt_succ
        (idxOf_lt_of_filter (hkeep a (hother a ha)) (hkeep b (hother b hb)) hlt)
termination_by items.length
decreasing_by exact Nat.lt_succ_of_le (List.length_filter_le _ _)

end FirstPlaces

namespace Consumer

/-- The edge by which the consumer reads a node. -/
def edgeTo (consumer : Consumer) (node : NodeId) : Edge :=
  ⟨consumer.parent, consumer.attr, node, consumer.index, consumer.channel⟩

def place (consumer : Consumer) : NodeId × String × Option Nat :=
  (consumer.parent, consumer.attr, consumer.index)

theorem edgeTo_injective (node : NodeId) : Function.Injective fun consumer => edgeTo consumer node := by
  intro first other h
  obtain ⟨parent, attr, index, channel⟩ := first
  obtain ⟨rfl, rfl, _, rfl, rfl⟩ := Edge.mk.inj h
  rfl

end Consumer

/-- The consumers among edges are listed in the order in which their edges are first met. -/
theorem pairwise_consumersAmong (node : NodeId) (edges : List Edge) :
    (consumersAmong node edges).Pairwise fun first other =>
      edges.idxOf (first.edgeTo node) < edges.idxOf (other.edgeTo node) := by
  -- among the edges to one node, consumers and edges determine each other
  have hback : ((edges.filter fun edge => edge.child == node).map Edge.consumer).map
      (fun consumer => consumer.edgeTo node) = edges.filter fun edge => edge.child == node := by
    rw [List.map_map]
    refine (List.map_congr_left fun edge hedge => ?_).trans (List.map_id _)
    have hchild : edge.child = node := by simpa using (List.mem_filter.mp hedge).2
    simp [Consumer.edgeTo, Edge.consumer, ← hchild]
  have hplace : ∀ consumer : Consumer,
      ((edges.filter fun edge => edge.child == node).map Edge.consumer).idxOf consumer =
        (edges.filter fun edge => edge.child == node).idxOf (consumer.edgeTo node) := by
    intro consumer
    rw [← idxOf_map (Consumer.edgeTo_injective node), hback]
  refine (pairwise_idxOf_eraseDups _).imp fun {first other} hlt => ?_
  rw [hplace, hplace] at hlt
  exact idxOf_lt_of_filter (by simp [Consumer.edgeTo]) (by simp [Consumer.edgeTo]) hlt

namespace Resolver

/-- If no cycle is reached from the roots, a resolver without a memory answers with exactly the slots
that show the node: of nodes that are roots or are reached from them, no slot twice, and in the order
in which the edges of the slots are first met on the walks of the roots, one after the other. -/
theorem consumers?_exact {M : Type} [Memory M] (scene : Scene) (roots : List NodeId) (node : NodeId)
    (h : ∀ root ∈ roots, LoopFree scene.reads.edges root) :
    ∃ walks found,
      List.Forall₂ (fun root walk =>
        (Walker.start scene.reads.edges root).Yields scene.reads.edges walk) roots walks ∧
      ({ roots } : Resolver M).consumers? scene.reads node = some (found, { roots }) ∧
      (∀ consumer, consumer ∈ found ↔ scene.reads.Reached roots consumer.parent ∧
        scene.reads.Shows (consumer.edgeTo node)) ∧
      found.Nodup ∧ (found.map Consumer.place).Nodup ∧
      found.Pairwise fun first other =>
        walks.flatten.idxOf (first.edgeTo node) < walks.flatten.idxOf (other.edgeTo node) := by
  obtain ⟨walks, hwalks⟩ := Option.isSome_iff_exists.mp
    (isSome_mapM scene.reads.walk? fun root hroot => Scene.isSome_walk? (h root hroot))
  have hfound : scene.reads.consumers? roots node = some (consumersAmong node walks.flatten) := by
    rw [Reads.consumers?, hwalks]
    rfl
  have hmem : ∀ consumer, consumer ∈ consumersAmong node walks.flatten ↔
      scene.reads.Reached roots consumer.parent ∧ scene.reads.Shows (consumer.edgeTo node) := by
    intro consumer
    rw [Reads.mem_consumers?_iff hfound]
    constructor
    · intro hh
      obtain ⟨parent, hreached, edge, hedge, rfl, rfl⟩ := hh
      obtain ⟨rfl, hshows⟩ := Scene.mem_edges_iff_shows.mp hedge
      exact ⟨hreached, hshows⟩
    · intro hh
      obtain ⟨hreached, hshows⟩ := hh
      exact ⟨consumer.parent, hreached, consumer.edgeTo node,
        Scene.mem_edges_iff_shows.mpr ⟨rfl, hshows⟩, rfl, rfl⟩
  have horder := pairwise_consumersAmong node walks.flatten
  have hnodup : (consumersAmong node walks.flatten).Nodup :=
    horder.imp fun hlt heq => by simp [heq] at hlt
  refine ⟨walks, _, (forall₂_of_mapM hwalks).imp fun _ _ hwalk =>
    Walker.yields_start (walked_of_walkWithin hwalk), ?_, hmem, hnodup, ?_, horder⟩
  · simp [consumers?, hfound]
  · refine List.Nodup.map_on ?_ hnodup
    intro first hfirst other hother heq
    obtain ⟨hparent, hattr, hindex⟩ : first.parent = other.parent ∧ first.attr = other.attr ∧
        first.index = other.index := by simpa [Consumer.place] using heq
    have hfirst := ((hmem first).mp hfirst).2
    have hother := ((hmem other).mp hother).2
    exact Consumer.edgeTo_injective node (hfirst.eq hother hparent hattr hindex)

end Resolver

/-- The slots of the mesh that show its shader. -/
def twiceShadedReaders : List Consumer :=
  [⟨.ofNat 1, "shaders", some 0, none⟩, ⟨.ofNat 1, "shaders", some 1, some "out"⟩]

/-- Walked from the mesh twice, both slots are met twice; each is named once, in their order. -/
theorem twiceShaded_consumers :
    (∀ root ∈ [NodeId.ofNat 1, .ofNat 1], LoopFree twiceShaded.scene.reads.edges root) ∧
      ∃ walks,
        List.Forall₂ (fun root walk => (Walker.start twiceShaded.scene.reads.edges root).Yields
          twiceShaded.scene.reads.edges walk) [.ofNat 1, .ofNat 1] walks ∧
        ({ roots := [.ofNat 1, .ofNat 1] } : Resolver).consumers? twiceShaded.scene.reads
          (.ofNat 2) = some (twiceShadedReaders, { roots := [.ofNat 1, .ofNat 1] }) ∧
        (twiceShadedReaders.map Consumer.place).Nodup ∧
        twiceShadedReaders.Pairwise fun first other =>
          walks.flatten.idxOf (first.edgeTo (.ofNat 2)) <
            walks.flatten.idxOf (other.edgeTo (.ofNat 2)) := by
  have hloops : ∀ root ∈ [NodeId.ofNat 1, .ofNat 1],
      LoopFree twiceShaded.scene.reads.edges root := fun root _ => twiceShaded_acyclic.loopFree root
  obtain ⟨walks, found, hwalks, hfound, _, _, hplaces, horder⟩ :=
    Resolver.consumers?_exact (M := Memo) twiceShaded.scene [.ofNat 1, .ofNat 1] (.ofNat 2) hloops
  obtain rfl : found = twiceShadedReaders :=
    Option.some.inj ((congrArg (Option.map Prod.fst) hfound).symm.trans (by decide))
  exact ⟨hloops, walks, hwalks, hfound, hplaces, horder⟩

end ShaderMigration
