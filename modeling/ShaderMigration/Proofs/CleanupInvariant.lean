import ShaderMigration.Proofs.ConversionLineage
import ShaderMigration.Proofs.MemoTransparency
import ShaderMigration.Proofs.WalkReach

namespace ShaderMigration

open Replacement (origin)

/-- The node is a root, or a root depends on it. -/
def Reads.Reached (reads : Reads) (roots : List NodeId) (node : NodeId) : Prop :=
  ∃ root ∈ roots, Relation.ReflTransGen (Leads reads.edges) root node

namespace Reads

variable {reads : Reads} {roots : List NodeId} {node : NodeId}

theorem reached_of_mem (h : node ∈ roots) : reads.Reached roots node := ⟨node, h, .refl⟩

theorem Reached.child (h : reads.Reached roots node) {edge : Edge} (he : edge ∈ reads.edges node) :
    reads.Reached roots edge.child := by
  obtain ⟨root, hroot, path⟩ := h
  exact ⟨root, hroot, path.tail ⟨edge, he, rfl⟩⟩

theorem mem_consumers?_iff {found : List Consumer} (h : reads.consumers? roots node = some found)
    {consumer : Consumer} :
    consumer ∈ found ↔ ∃ parent, reads.Reached roots parent ∧
      ∃ edge ∈ reads.edges parent, edge.child = node ∧ edge.consumer = consumer := by
  obtain ⟨walks, hwalks, rfl⟩ := Option.map_eq_some_iff.mp h
  obtain ⟨hto, hfrom⟩ := mapM_eq_some_mem hwalks
  have hwalk : ∀ edge, edge ∈ walks.flatten ↔
      ∃ parent, reads.Reached roots parent ∧ edge ∈ reads.edges parent := by
    intro edge
    rw [List.mem_flatten]
    constructor
    · intro hh
      obtain ⟨walk, hwalk, hedge⟩ := hh
      obtain ⟨root, hroot, hsome⟩ := hfrom walk hwalk
      obtain ⟨parent, path, hparent⟩ := (mem_walkWithin_iff hsome edge).mp hedge
      exact ⟨parent, ⟨root, hroot, path⟩, hparent⟩
    · intro hh
      obtain ⟨parent, ⟨root, hroot, path⟩, hparent⟩ := hh
      obtain ⟨walk, hwalk, hsome⟩ := hto root hroot
      exact ⟨walk, hwalk, (mem_walkWithin_iff hsome edge).mpr ⟨parent, path, hparent⟩⟩
  simp only [consumersAmong, List.mem_eraseDups, List.mem_map, List.mem_filter, hwalk, beq_iff_eq]
  constructor
  · intro hh
    obtain ⟨edge, ⟨⟨parent, hreached, hedge⟩, hchild⟩, heq⟩ := hh
    exact ⟨parent, hreached, edge, hedge, hchild, heq⟩
  · intro hh
    obtain ⟨parent, hreached, edge, hedge, hchild, heq⟩ := hh
    exact ⟨edge, ⟨⟨parent, hreached, hedge⟩, hchild⟩, heq⟩

theorem isSome_consumers? (h : ∀ root ∈ roots, (reads.walk? root).isSome) :
    (reads.consumers? roots node).isSome := by
  rw [consumers?, Option.isSome_map]
  exact isSome_mapM _ h

end Reads

namespace Resolver

variable {M : Type} [Memory M]

theorem mem_roots_ofRoots_iff {roots more : List NodeId} {capacity : Nat} {root : NodeId} :
    root ∈ (ofRoots roots more capacity : Resolver M).roots ↔ root ∈ roots ∨ root ∈ more := by
  have hfold : ∀ (more : List NodeId) (resolver : Resolver M),
      root ∈ (more.foldl addRoot resolver).roots ↔ root ∈ resolver.roots ∨ root ∈ more := by
    intro more
    induction more with
    | nil => simp
    | cons first rest ih =>
      intro resolver
      have hadd : root ∈ (resolver.addRoot first).roots ↔
          root ∈ resolver.roots ∨ root = first := by
        unfold addRoot
        split
        next hm =>
          refine ⟨Or.inl, ?_⟩
          intro hh
          rcases hh with h | rfl
          · exact h
          · exact hm
        next => simp
      rw [List.foldl_cons, ih, hadd, List.mem_cons, or_assoc]
  exact hfold more _

theorem memo_ofRoots_zero (roots more : List NodeId) :
    (ofRoots roots more 0 : Resolver M).memo = none := memo_foldl_addRoot _ _

theorem invalidate_of_memo_none {resolver : Resolver M} (h : resolver.memo = none) :
    resolver.invalidate = resolver := by
  obtain ⟨roots, memo⟩ := resolver
  cases h
  rfl

end Resolver

theorem Lineage.feeds_of_mem_edges {start : LiveScene} {pairs : List Replacement} {scene : Scene}
    (h : Lineage start pairs scene) {node : NodeId} {edge : Edge}
    (he : edge ∈ scene.reads.edges node) :
    start.scene.Feeds (origin pairs edge.consumer.parent) (origin pairs edge.child) := by
  have hparent : edge.consumer.parent = node := Scene.parent_of_mem_edges he
  rw [hparent]
  exact h.lifts _ _ (Scene.feeds_of_mem_edges he)

namespace Cleanup

variable {σ M : Type} [Memory M] {host : Host σ} {pairs : List Replacement}

/-- The consumers of an old node that are to be repointed at its replacement. -/
def kept (olds : List NodeId) (pair : Replacement) (found : List Consumer) : List Consumer :=
  found.filter fun consumer => !(olds.contains consumer.parent || consumer.parent == pair.new)

theorem mem_kept_iff {olds : List NodeId} {pair : Replacement} {found : List Consumer}
    {consumer : Consumer} :
    consumer ∈ kept olds pair found ↔
      consumer ∈ found ∧ consumer.parent ∉ olds ∧ consumer.parent ≠ pair.new := by
  simp [kept]

theorem repointPair?_of_memo_none (olds : List NodeId) {p : Progress σ M}
    (hplain : p.resolver.memo = none) (pair : Replacement) :
    repointPair? host olds p pair =
      ((host.reads p.state).consumers? p.resolver.roots pair.old).map fun found =>
        (kept olds pair found).foldl (repointConsumer host pair) p := by
  unfold repointPair? Resolver.consumers?
  rw [hplain]
  rw [Option.map_map]
  rfl

theorem resolver_foldl (host : Host σ) (pair : Replacement) (consumers : List Consumer)
    {p : Progress σ M} (hplain : p.resolver.memo = none) :
    (consumers.foldl (repointConsumer host pair) p).resolver = p.resolver := by
  induction consumers generalizing p with
  | nil => rfl
  | cons consumer rest ih =>
    have hstep : (repointConsumer host pair p consumer).resolver = p.resolver := by
      unfold repointConsumer
      split
      next => exact Resolver.invalidate_of_memo_none hplain
      next => rfl
    rw [List.foldl_cons, ih (hstep ▸ hplain), hstep]

/-- `I` is kept when a found consumer is repointed, and makes walks end.  `C` is what is known of a
found consumer, whatever else is repointed before its turn comes. -/
structure Keeps (host : Host σ) (pairs : List Replacement) (I : σ → Prop)
    (C : Replacement → Consumer → Prop) : Prop where
  ends : ∀ {s}, I s → ∀ root, ((host.reads s).walk? root).isSome
  found : ∀ {s parent pair} {edge : Edge}, I s → edge ∈ (host.reads s).edges parent →
    edge.child = pair.old → C pair edge.consumer
  repoint : ∀ {s pair consumer}, I s → pair ∈ pairs → C pair consumer →
    I (repoint host consumer pair.new s).2

section Kept

variable {I : σ → Prop} {C : Replacement → Consumer → Prop} (k : Keeps host pairs I C)
include k

theorem keeps_repointConsumer {p : Progress σ M} (hs : I p.state) {pair : Replacement}
    (hpair : pair ∈ pairs) {consumer : Consumer} (hc : C pair consumer) :
    I (repointConsumer host pair p consumer).state := by
  have hkeep := k.repoint hs hpair hc
  unfold repointConsumer
  split
  next heq => rwa [heq] at hkeep
  next heq => rwa [heq] at hkeep

theorem keeps_foldl {p : Progress σ M} (hs : I p.state) {pair : Replacement} (hpair : pair ∈ pairs)
    {consumers : List Consumer} (hc : ∀ consumer ∈ consumers, C pair consumer) :
    I (consumers.foldl (repointConsumer host pair) p).state := by
  induction consumers generalizing p with
  | nil => exact hs
  | cons consumer rest ih =>
    exact ih (keeps_repointConsumer k hs hpair (hc consumer (by simp)))
      fun other hother => hc other (by simp [hother])

theorem keeps_repointPair? (olds : List NodeId) {p : Progress σ M} (hs : I p.state)
    (hplain : p.resolver.memo = none) {pair : Replacement} (hpair : pair ∈ pairs) :
    ∃ found, (host.reads p.state).consumers? p.resolver.roots pair.old = some found ∧
      repointPair? host olds p pair =
        some ((kept olds pair found).foldl (repointConsumer host pair) p) ∧
      I ((kept olds pair found).foldl (repointConsumer host pair) p).state := by
  have hsome : ((host.reads p.state).consumers? p.resolver.roots pair.old).isSome :=
    Reads.isSome_consumers? fun root _ => k.ends hs root
  obtain ⟨found, hfound⟩ := Option.isSome_iff_exists.mp hsome
  refine ⟨found, hfound, ?_, keeps_foldl k hs hpair ?_⟩
  · rw [repointPair?_of_memo_none olds hplain, hfound, Option.map_some]
  · intro consumer hc
    obtain ⟨parent, _, edge, hedge, hchild, rfl⟩ :=
      (Reads.mem_consumers?_iff hfound).mp (mem_kept_iff.mp hc).1
    exact k.found hs hedge hchild

theorem keeps_foldlM (olds : List NodeId) {rest : List Replacement} (hrest : rest ⊆ pairs)
    {p : Progress σ M} (hs : I p.state) (hplain : p.resolver.memo = none) :
    ∃ later, rest.foldlM (repointPair? host olds) p = some later ∧ I later.state := by
  induction rest generalizing p with
  | nil => exact ⟨p, rfl, hs⟩
  | cons pair rest ih =>
    obtain ⟨hpair, hrest⟩ := List.cons_subset.mp hrest
    obtain ⟨found, _, heq, hlater⟩ := keeps_repointPair? k olds hs hplain hpair
    have hnext := resolver_foldl host pair (kept olds pair found) hplain
    obtain ⟨later, hfold, hlast⟩ := ih hrest hlater (hnext ▸ hplain)
    exact ⟨later, by rw [List.foldlM_cons, heq]; exact hfold, hlast⟩

end Kept

def initial (host : Host σ) (options : Options) (pairs : List Replacement) (state : σ) :
    Progress σ M :=
  { state, resolver := resolver options (host.reads state).roots pairs }

theorem cleanUp?_eq (options : Options) (pairs : List Replacement) (state : σ) :
    cleanUp? (M := M) host options pairs state =
      ((replaced pairs).foldlM (repointPair? host ((replaced pairs).map Replacement.old))
        (initial host options pairs state : Progress σ M)).map fun p => (p.report, p.state) := rfl

theorem memo_initial (fromReplacements : Bool) (pairs : List Replacement) (state : σ) :
    (initial host ⟨0, fromReplacements⟩ pairs state : Progress σ M).resolver.memo = none :=
  Resolver.memo_ofRoots_zero _ _

theorem mem_roots_initial_iff {capacity : Nat} {pairs : List Replacement} {state : σ}
    {root : NodeId} :
    root ∈ (initial host ⟨capacity, true⟩ pairs state : Progress σ M).resolver.roots ↔
      root ∈ (host.reads state).roots ∨ root ∈ (replaced pairs).map Replacement.new :=
  Resolver.mem_roots_ofRoots_iff

/-- A cleanup without a memory ends and keeps what its repointings keep. -/
theorem keeps_cleanUp? {pairs : List Replacement} {I : σ → Prop}
    {C : Replacement → Consumer → Prop} (k : Keeps host (replaced pairs) I C)
    (fromReplacements : Bool) {state : σ} (hs : I state) :
    ∃ report later, cleanUp? (M := M) host ⟨0, fromReplacements⟩ pairs state =
      some (report, later) ∧ I later := by
  obtain ⟨p, hfold, hp⟩ := keeps_foldlM (M := M) k ((replaced pairs).map Replacement.old)
    (List.Subset.refl _) hs (memo_initial fromReplacements pairs state)
  exact ⟨p.report, p.state, by rw [cleanUp?_eq, hfold, Option.map_some], hp⟩

/-- A repointing writes one slot, or it is refused and changes nothing. -/
theorem repoint_cases (consumer : Consumer) (new : NodeId) (live : LiveScene) :
    (∃ scene, repoint LiveScene.host consumer new live = (.ok (), { live with scene }) ∧
      live.scene.Rewrites scene consumer.parent consumer.attr [⟨new, consumer.channel⟩]) ∨
      ∃ cause, repoint LiveScene.host consumer new live = (.error cause, live) := by
  have hedit : ∀ f : Scene → Except HostError Scene, (∀ scene, f live.scene = .ok scene →
      live.scene.Rewrites scene consumer.parent consumer.attr [⟨new, consumer.channel⟩]) →
      (∃ scene, LiveScene.edit () f live = (.ok (), { live with scene }) ∧
        live.scene.Rewrites scene consumer.parent consumer.attr [⟨new, consumer.channel⟩]) ∨
        ∃ cause, LiveScene.edit () f live = (.error cause, live) := by
    intro f hr
    rcases LiveScene.edit_cases () f live with ⟨scene, hok, heq⟩ | ⟨cause, _, heq⟩
    · exact Or.inl ⟨scene, heq, hr scene hok⟩
    · exact Or.inr ⟨cause, heq⟩
  unfold repoint
  cases consumer.index with
  | none =>
    exact hedit (Scene.connect · ⟨new, consumer.channel⟩ consumer.parent consumer.attr)
      fun scene hok => Scene.rewrites_of_connect hok
  | some index =>
    refine hedit (Scene.setIndexed · consumer.parent consumer.attr index
      (.connection ⟨new, consumer.channel⟩)) fun scene hok => ?_
    simpa [Value.plugs] using Scene.rewrites_of_setIndexed hok

/-- A repointing adds a dependency that the origin of the consumer had on that of the pair. -/
theorem lineage_of_repoint {start : LiveScene} {live : LiveScene} {pair : Replacement}
    {consumer : Consumer} (h : Lineage start pairs live.scene) (hpair : pair ∈ pairs)
    (hf : start.scene.Feeds (origin pairs consumer.parent) (origin pairs pair.old)) :
    Lineage start pairs (repoint LiveScene.host consumer pair.new live).2.scene := by
  rcases repoint_cases consumer pair.new live with ⟨scene, heq, hr⟩ | ⟨cause, heq⟩
  · rw [heq]
    refine h.of_rewrites hr ?_
    intro plug hp
    rw [List.mem_singleton.mp hp, h.chronological.origin_eq hpair]
    exact hf
  · rw [heq]
    exact h

theorem cleanup_keeps_lineage {start : LiveScene} (ha : start.scene.Acyclic) :
    Keeps LiveScene.host pairs (fun live => Lineage start pairs live.scene)
      fun pair consumer =>
        start.scene.Feeds (origin pairs consumer.parent) (origin pairs pair.old) where
  ends := fun hs root => (hs.acyclic ha).isSome_walk? root
  found := fun hs hedge hchild => hchild ▸ hs.feeds_of_mem_edges hedge
  repoint := fun hs hpair hf => lineage_of_repoint hs hpair hf

end Cleanup

end ShaderMigration
