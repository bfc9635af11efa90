import ShaderMigration.Proofs.CleanupSettled

namespace ShaderMigration

open Replacement (heir origin LastOfChain)

namespace Cleanup

variable {M : Type} {start : LiveScene} {pairs : List Replacement} {before : Scene}
  {roots : List NodeId} {p : Progress LiveScene M}

theorem cleanup_sound {start : LiveScene} (ha : start.scene.Acyclic) :
    Sound pairs (Lineage start pairs ·.scene) fun pair consumer =>
      start.scene.Feeds (origin pairs consumer.parent) (origin pairs pair.old) where
  toKeeps := cleanup_keeps_lineage ha
  present := fun hs pair hpair => (hs.present pair hpair).2
  -- the replacement reads the old node as little as the old node reads itself
  apart := by
    intro live hs pair hpair hfeeds
    have hself := hs.lifts _ _ hfeeds
    rw [hs.chronological.origin_eq hpair] at hself
    exact ha.not_feeds_self _ hself

theorem Settled.lineage {done : List Replacement}
    (h : Settled (Lineage start pairs ·.scene) pairs done before roots p) :
    Lineage start pairs p.state.scene := h.held

section Reached

variable (h : Settled (Lineage start pairs ·.scene) pairs pairs before roots p)
include h

theorem Settled.child_not_mem {node : NodeId} (hreached : p.state.scene.reads.Reached roots node)
    (hnode : node ∉ pairs.map Replacement.old) {edge : Edge}
    (hedge : edge ∈ p.state.scene.reads.edges node) : edge.child ∉ pairs.map Replacement.old := by
  rw [h.edges node hreached hnode] at hedge
  obtain ⟨shown, _, rfl⟩ := List.mem_map.mp hedge
  exact h.lineage.chronological.heir_not_mem shown.child

theorem Settled.reached_not_mem {root node : NodeId} (hroot : root ∈ roots)
    (hkept : root ∉ pairs.map Replacement.old)
    (path : Relation.ReflTransGen (Leads p.state.scene.reads.edges) root node) :
    p.state.scene.reads.Reached roots node ∧ node ∉ pairs.map Replacement.old := by
  induction path with
  | refl => exact ⟨Reads.reached_of_mem hroot, hkept⟩
  | tail _ hlast ih =>
    obtain ⟨edge, hedge, rfl⟩ := hlast
    exact ⟨ih.1.child hedge, h.child_not_mem ih.1 ih.2 hedge⟩

theorem Settled.walk (ha : start.scene.Acyclic) {root : NodeId} (hroot : root ∈ roots)
    (hkept : root ∉ pairs.map Replacement.old) :
    ∃ walk, p.state.scene.reads.walk? root = some walk ∧
      (∀ edge ∈ walk, edge.parent ∉ pairs.map Replacement.old ∧
        edge.child ∉ pairs.map Replacement.old) ∧
      ∀ node, node = root ∨ node ∈ walk.map Edge.child →
        p.state.scene.reads.edges node = (before.reads.edges node).map (Edge.inherited pairs) := by
  obtain ⟨walk, hwalk⟩ := Option.isSome_iff_exists.mp ((h.lineage.acyclic ha).isSome_walk? root)
  have hedges := mem_walkWithin_iff hwalk
  refine ⟨walk, hwalk, ?_, ?_⟩
  · intro edge hedge
    obtain ⟨node, path, hnode⟩ := (hedges edge).mp hedge
    obtain ⟨hreached, hold⟩ := h.reached_not_mem hroot hkept path
    have hparent : edge.parent = node := Scene.parent_of_mem_edges hnode
    exact ⟨hparent ▸ hold, h.child_not_mem hreached hold hnode⟩
  · intro node hh
    rcases hh with rfl | hnode
    · exact h.edges node (Reads.reached_of_mem hroot) hkept
    · obtain ⟨edge, hedge, rfl⟩ := List.mem_map.mp hnode
      obtain ⟨parent, path, hparent⟩ := (hedges edge).mp hedge
      obtain ⟨hreached, hold⟩ := h.reached_not_mem hroot hkept (path.tail ⟨edge, hparent, rfl⟩)
      exact h.edges edge.child hreached hold

end Reached

variable [Memory M]

section Again

variable (h : Settled (Lineage start pairs ·.scene) pairs pairs before roots p)
include h

/-- On the scene of a finished cleanup, the slots that show an old node are those of old nodes. -/
theorem Settled.repointPair?_eq (ha : start.scene.Acyclic) {q : Progress LiveScene M}
    (hstate : q.state = p.state) (hplain : q.resolver.memo = none)
    (hrooted : q.resolver.roots = roots) {pair : Replacement} (hpair : pair ∈ pairs) :
    repointPair? LiveScene.host (pairs.map Replacement.old) q pair = some q := by
  obtain ⟨found, hfound, heq, _⟩ := keeps_repointPair? (cleanup_keeps_lineage ha)
    (pairs.map Replacement.old) (hstate ▸ h.lineage) hplain hpair
  have hnone : kept (pairs.map Replacement.old) pair found = [] := by
    refine List.eq_nil_iff_forall_not_mem.mpr ?_
    intro consumer hc
    obtain ⟨hmem, hold, _⟩ := mem_kept_iff.mp hc
    rw [hrooted, hstate] at hfound
    obtain ⟨parent, hreached, edge, hedge, hchild, rfl⟩ := (Reads.mem_consumers?_iff hfound).mp hmem
    have hparent : edge.consumer.parent = parent := Scene.parent_of_mem_edges hedge
    have hkept := h.child_not_mem hreached (hparent ▸ hold) hedge
    exact hkept (hchild ▸ List.mem_map_of_mem hpair)
  rw [heq, hnone, List.foldl_nil]

theorem Settled.again (ha : start.scene.Acyclic) {q : Progress LiveScene M}
    (hstate : q.state = p.state) (hplain : q.resolver.memo = none)
    (hrooted : q.resolver.roots = roots) {rest : List Replacement} (hrest : rest ⊆ pairs) :
    rest.foldlM (repointPair? LiveScene.host (pairs.map Replacement.old)) q = some q := by
  induction rest with
  | nil => rfl
  | cons pair rest ih =>
    obtain ⟨hpair, hrest⟩ := List.cons_subset.mp hrest
    rw [List.foldlM_cons, h.repointPair?_eq ha hstate hplain hrooted hpair]
    exact ih hrest

end Again

theorem settled_of_autoConvert {sheet : Sheet LiveScene} {workshop : Texture.Workshop}
    {run after : Run LiveScene} {report : ConversionReport} (hsheet : Sheet.PlugFree sheet)
    (hkeyed : run.state.scene.Keyed) (hschemas : run.state.scene.SchemasPlugFree)
    (hacyclic : run.state.scene.Acyclic)
    (hrun : (Migrator.inMemory sheet workshop).autoConvert run = (report, after))
    (hfresh : run.state.NextFresh report.converted) :
    ∃ p : Progress LiveScene M,
      cleanUp? (M := M) LiveScene.host ⟨0, true⟩ report.pairs after.state =
        some (p.report, p.state) ∧
      Settled (Lineage run.state (replaced report.pairs) ·.scene) (replaced report.pairs)
        (replaced report.pairs) after.state.scene
        (initial LiveScene.host ⟨0, true⟩ report.pairs after.state :
          Progress LiveScene M).resolver.roots p := by
  obtain ⟨hlineage, _⟩ := lineage_of_autoConvert hsheet hkeyed hschemas hrun hfresh
  exact settled_of_sound (cleanup_sound hacyclic) hlineage

end Cleanup

/-- A migration leaves nothing behind: its cleanup repoints without a failure, and afterwards no
replaced node can be reached from a root that stays; every edge within reach of such a root is as it
was before the cleanup, with the last node of its chain in the place of a replaced child. -/
theorem cleanUp?_leaves_nothing_behind {sheet : Sheet LiveScene} {workshop : Texture.Workshop}
    {run after : Run LiveScene} {report : ConversionReport} (hsheet : Sheet.PlugFree sheet)
    (hkeyed : run.state.scene.Keyed) (hschemas : run.state.scene.SchemasPlugFree)
    (hacyclic : run.state.scene.Acyclic)
    (hrun : (Migrator.inMemory sheet workshop).autoConvert run = (report, after))
    (hfresh : run.state.NextFresh report.converted) :
    ∃ cleaned final,
      cleanUp? LiveScene.host {} report.pairs after.state = some (cleaned, final) ∧
      cleaned.failures = [] ∧
      (∀ first last, LastOfChain (Cleanup.replaced report.pairs) first last ↔
        last = heir (Cleanup.replaced report.pairs) first) ∧
      (∀ child ∉ (Cleanup.replaced report.pairs).map Replacement.old,
        heir (Cleanup.replaced report.pairs) child = child) ∧
      ∀ root ∈ after.state.scene.roots ++ (Cleanup.replaced report.pairs).map Replacement.new,
        root ∉ (Cleanup.replaced report.pairs).map Replacement.old →
        ∃ walk, final.scene.reads.walk? root = some walk ∧
          (∀ edge ∈ walk, edge.parent ∉ (Cleanup.replaced report.pairs).map Replacement.old ∧
            edge.child ∉ (Cleanup.replaced report.pairs).map Replacement.old) ∧
          ∀ node, node = root ∨ node ∈ walk.map Edge.child →
            final.scene.reads.edges node = (after.state.scene.reads.edges node).map
              (Edge.inherited (Cleanup.replaced report.pairs)) := by
  obtain ⟨hlineage, hnodup⟩ := lineage_of_autoConvert hsheet hkeyed hschemas hrun hfresh
  obtain ⟨p, hclean, hp⟩ := Cleanup.settled_of_autoConvert (M := Memo) hsheet hkeyed hschemas
    hacyclic hrun hfresh
  refine ⟨p.report, p.state, hclean, hp.clean, ?_, ?_, ?_⟩
  · exact fun first last => hlineage.chronological.lastOfChain_iff hnodup
  · exact fun child hchild => Replacement.heir_of_not_mem hchild
  · intro root hroot hkept
    exact hp.walk hacyclic (Cleanup.mem_roots_initial_iff.mpr (List.mem_append.mp hroot)) hkept

/-- The phong shader becomes a blinn shader and then a standard one, which both slots then show. -/
theorem cleanUp?_leaves_no_phong :
    ∃ cleaned final, cleanUp? LiveScene.host {} stagedRun.1.pairs stagedRun.2.state =
        some (cleaned, final) ∧ cleaned.failures = [] ∧
      (∃ walk, final.scene.reads.walk? (.ofNat 1) = some walk ∧
        ∀ edge ∈ walk, edge.child ≠ .ofNat 2 ∧ edge.child ≠ .ofNat 4) ∧
      final.scene.reads.edges (.ofNat 1) =
        [⟨.ofNat 1, "shaders", .ofNat 5, some 0, none⟩,
          ⟨.ofNat 1, "shaders", .ofNat 5, some 1, some "out"⟩] := by
  obtain ⟨cleaned, final, hclean, hfailures, _, _, hwalks⟩ := cleanUp?_leaves_nothing_behind
    phongByStages_plugFree (by decide) (by decide) twiceShaded_acyclic stagedRun_eq
    fresh_stagedRun
  obtain ⟨walk, hwalk, hmem, hedges⟩ := hwalks (.ofNat 1) (by decide +kernel) (by decide +kernel)
  rw [olds_stagedRun] at hmem
  refine ⟨cleaned, final, hclean, hfailures, ⟨walk, hwalk, ?_⟩, ?_⟩
  · intro edge hedge
    simpa using (hmem edge hedge).2
  · rw [hedges _ (Or.inl rfl)]
    decide +kernel

/-- A second cleanup of a batch finds nothing to do, whatever the two memories can hold. -/
theorem cleanUp?_twice {M : Type} [Memory M] [LawfulMemory M] {sheet : Sheet LiveScene}
    {workshop : Texture.Workshop} {run after : Run LiveScene} {report : ConversionReport}
    (hsheet : Sheet.PlugFree sheet) (hkeyed : run.state.scene.Keyed)
    (hschemas : run.state.scene.SchemasPlugFree) (hacyclic : run.state.scene.Acyclic)
    (hrun : (Migrator.inMemory sheet workshop).autoConvert run = (report, after))
    (hfresh : run.state.NextFresh report.converted) (capacity capacity' : Nat) :
    ∃ first cleaned,
      cleanUp? (M := M) LiveScene.host ⟨capacity, true⟩ report.pairs after.state =
        some (first, cleaned) ∧
      cleanUp? (M := M) LiveScene.host ⟨capacity', true⟩ report.pairs cleaned =
        some ({}, cleaned) := by
  have hcapacity : ∀ capacity live,
      cleanUp? (M := M) LiveScene.host ⟨capacity, true⟩ report.pairs live =
        cleanUp? (M := M) LiveScene.host ⟨0, true⟩ report.pairs live := fun capacity live =>
    Cleanup.cleanUp?_capacity (fun _ _ _ _ => Cleanup.repoint_error) capacity true report.pairs live
  obtain ⟨hlineage, _⟩ := lineage_of_autoConvert hsheet hkeyed hschemas hrun hfresh
  obtain ⟨p, hclean, hp⟩ := Cleanup.settled_of_autoConvert (M := M) hsheet hkeyed hschemas
    hacyclic hrun hfresh
  refine ⟨p.report, p.state, by rw [hcapacity, hclean], ?_⟩
  let again : Cleanup.Progress LiveScene M :=
    Cleanup.initial LiveScene.host ⟨0, true⟩ report.pairs p.state
  have hroots : p.state.scene.roots = after.state.scene.roots :=
    hp.lineage.grows.roots.trans hlineage.grows.roots.symm
  have hrooted : again.resolver.roots = (Cleanup.initial LiveScene.host ⟨0, true⟩ report.pairs
      after.state : Cleanup.Progress LiveScene M).resolver.roots := by
    have hresolver : again.resolver =
        Cleanup.resolver ⟨0, true⟩ p.state.scene.roots report.pairs := rfl
    rw [hresolver, hroots]
    rfl
  have hstate : again.state = p.state := rfl
  have hplain : again.resolver.memo = none := Cleanup.memo_initial true report.pairs p.state
  have hdone : (Cleanup.replaced report.pairs).foldlM (Cleanup.repointPair? LiveScene.host
      ((Cleanup.replaced report.pairs).map Replacement.old)) again = some again :=
    hp.again hacyclic hstate hplain hrooted (List.Subset.refl _)
  rw [hcapacity, Cleanup.cleanUp?_eq, hdone]
  rfl

/-- The first cleanup repoints both slots twice, the second one nothing. -/
theorem cleanUp?_staged_twice :
    ∃ first cleaned,
      cleanUp? (M := Memo) LiveScene.host ⟨1, true⟩ stagedRun.1.pairs stagedRun.2.state =
        some (first, cleaned) ∧ first.rewired.length = 4 ∧
      cleanUp? (M := Memo) LiveScene.host ⟨2, true⟩ stagedRun.1.pairs cleaned =
        some ({}, cleaned) := by
  obtain ⟨first, cleaned, hfirst, hsecond⟩ := cleanUp?_twice (M := Memo) phongByStages_plugFree
    (by decide) (by decide) twiceShaded_acyclic stagedRun_eq fresh_stagedRun 1 2
  have hcount : (cleanUp? (M := Memo) LiveScene.host ⟨1, true⟩ stagedRun.1.pairs
      stagedRun.2.state).map (fun result => result.1.rewired.length) = some 4 := by decide +kernel
  rw [hfirst] at hcount
  exact ⟨first, cleaned, hfirst, Option.some.inj hcount, hsecond⟩

end ShaderMigration
