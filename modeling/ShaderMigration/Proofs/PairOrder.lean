import ShaderMigration.Proofs.CleanupSettled
import ShaderMigration.Proofs.ConversionLineage

namespace ShaderMigration

open Replacement (heir)

/-- No node is replaced twice, no replacement is replaced itself, and the replacements are nodes that
depend on nothing but what their old nodes depend on. -/
structure Scene.Independent (scene : Scene) (pairs : List Replacement) : Prop where
  distinct : (pairs.map Replacement.old).Nodup
  apart : ∀ pair ∈ pairs, ∀ other ∈ pairs, other.new ≠ pair.old
  present : ∀ pair ∈ pairs, pair.new ∈ scene.nodes.keys
  held : ∀ pair ∈ pairs, ∀ b, scene.Feeds pair.new b → scene.Feeds pair.old b

theorem Scene.independent_iff {scene : Scene} {pairs : List Replacement} :
    scene.Independent pairs ↔ (pairs.map Replacement.old).Nodup ∧
      (∀ pair ∈ pairs, ∀ other ∈ pairs, other.new ≠ pair.old) ∧
      (∀ pair ∈ pairs, pair.new ∈ scene.nodes.keys) ∧
      ∀ pair ∈ pairs, ∀ entry ∈ scene.nodes.entries, entry.1 = pair.new →
        ∀ slot ∈ entry.2.attributes.entries, ∀ plug ∈ slot.2.plugs,
          scene.Feeds pair.old plug.node := by
  constructor
  · intro h
    refine ⟨h.distinct, h.apart, h.present, ?_⟩
    intro pair hpair entry he hnew slot hs plug hp
    exact h.held pair hpair _ (feeds_iff.mpr ⟨entry, he, hnew, slot, hs, plug, hp, rfl⟩)
  · intro h
    obtain ⟨hdistinct, hapart, hpresent, hheld⟩ := h
    refine ⟨hdistinct, hapart, hpresent, ?_⟩
    intro pair hpair b hf
    obtain ⟨entry, he, hnew, slot, hs, plug, hp, rfl⟩ := feeds_iff.mp hf
    exact hheld pair hpair entry he hnew slot hs plug hp

instance (scene : Scene) (pairs : List Replacement) : Decidable (scene.Independent pairs) :=
  decidable_of_iff _ Scene.independent_iff.symm

namespace Scene.Independent

variable {scene : Scene} {pairs other : List Replacement}

theorem perm (h : scene.Independent pairs) (hperm : other.Perm pairs) :
    scene.Independent other := by
  have hmem : ∀ pair ∈ other, pair ∈ pairs := fun pair hp => hperm.subset hp
  refine ⟨(hperm.map Replacement.old).nodup_iff.mpr h.distinct, ?_, ?_, ?_⟩
  · exact fun pair hp later hl => h.apart pair (hmem pair hp) later (hmem later hl)
  · exact fun pair hp => h.present pair (hmem pair hp)
  · exact fun pair hp => h.held pair (hmem pair hp)

theorem replaced_eq (h : scene.Independent pairs) : Cleanup.replaced pairs = pairs := by
  refine List.filter_eq_self.mpr fun pair hp => ?_
  simpa using (h.apart pair hp pair hp).symm

theorem heir_eq (h : scene.Independent pairs) {pair : Replacement} (hp : pair ∈ pairs) :
    heir pairs pair.old = pair.new := by
  have hlast : ∀ rest : List Replacement, rest ⊆ pairs → heir rest pair.new = pair.new := by
    intro rest hrest
    refine Replacement.heir_of_not_mem fun hm => ?_
    obtain ⟨later, hl, heq⟩ := List.mem_map.mp hm
    exact h.apart later (hrest hl) pair hp heq.symm
  have hfirst : ∀ rest : List Replacement, rest ⊆ pairs → (rest.map Replacement.old).Nodup →
      pair ∈ rest → heir rest pair.old = pair.new := by
    intro rest
    induction rest with
    | nil => simp
    | cons first rest ih =>
      intro hrest hnodup hmem
      obtain ⟨_, htail⟩ := List.cons_subset.mp hrest
      obtain ⟨hnot, hnodup⟩ := List.nodup_cons.mp hnodup
      rw [heir, List.foldl_cons]
      rcases List.mem_cons.mp hmem with rfl | hmem
      · rw [if_pos rfl]
        exact hlast rest htail
      · have hne : pair.old ≠ first.old := fun heq =>
          hnot (heq ▸ List.mem_map_of_mem hmem)
        rw [if_neg hne]
        exact ih htail hnodup hmem
  exact hfirst pairs (List.Subset.refl _) h.distinct hp

theorem heir_perm (h : scene.Independent pairs) (hperm : other.Perm pairs) (node : NodeId) :
    heir other node = heir pairs node := by
  by_cases hnode : node ∈ pairs.map Replacement.old
  · obtain ⟨pair, hp, rfl⟩ := List.mem_map.mp hnode
    rw [h.heir_eq hp, (h.perm hperm).heir_eq (hperm.mem_iff.mpr hp)]
  · have hnode' : node ∉ other.map Replacement.old := fun hm =>
      hnode ((hperm.map Replacement.old).subset hm)
    rw [Replacement.heir_of_not_mem hnode, Replacement.heir_of_not_mem hnode']

end Scene.Independent

/-- How a scene under such a cleanup stands to the scene at the start: a dependency that is new is
one on a replacement, in place of one on its old node. -/
structure Exchanged (start : Scene) (pairs : List Replacement) (scene : Scene) : Prop where
  keys : scene.nodes.keys = start.nodes.keys
  roots : scene.roots = start.roots
  feeds : ∀ a b, scene.Feeds a b →
    start.Feeds a b ∨ ∃ pair ∈ pairs, pair.new = b ∧ start.Feeds a pair.old

namespace Exchanged

variable {start scene scene' : Scene} {pairs : List Replacement}

theorem refl (start : Scene) (pairs : List Replacement) : Exchanged start pairs start :=
  ⟨rfl, rfl, fun _ _ hf => Or.inl hf⟩

/-- A cycle would lead to one at the start: where a path passes through a replacement, it goes on as
it could from the old node. -/
theorem acyclic (h : Exchanged start pairs scene) (hi : start.Independent pairs)
    (ha : start.Acyclic) : scene.Acyclic := by
  intro a hcycle
  -- from `a` one comes to where one came at the start, or to a replacement of such a node
  have hcome : ∀ b, Relation.TransGen scene.Feeds a b → Relation.TransGen start.Feeds a b ∨
      ∃ pair ∈ pairs, pair.new = b ∧ Relation.TransGen start.Feeds a pair.old := by
    intro b path
    induction path with
    | single edge =>
      rcases h.feeds _ _ edge with hf | ⟨pair, hp, hnew, hf⟩
      · exact Or.inl (.single hf)
      · exact Or.inr ⟨pair, hp, hnew, .single hf⟩
    | @tail mid b _ edge ih =>
      have hgo : ∀ {x}, start.Feeds mid x → Relation.TransGen start.Feeds a x := by
        intro x hf
        rcases ih with path | ⟨pair, hp, rfl, path⟩
        · exact path.tail hf
        · exact path.tail (hi.held pair hp x hf)
      rcases h.feeds _ _ edge with hf | ⟨pair, hp, hnew, hf⟩
      · exact Or.inl (hgo hf)
      · exact Or.inr ⟨pair, hp, hnew, hgo hf⟩
  rcases hcome a hcycle with hself | ⟨pair, hp, rfl, hself⟩
  · exact ha a hself
  · obtain ⟨x, hx, hrest⟩ := Relation.TransGen.head'_iff.mp hself
    exact ha pair.old (.head' (hi.held pair hp x hx) hrest)

theorem of_rewrites (h : Exchanged start pairs scene) {pair : Replacement} (hp : pair ∈ pairs)
    {node : NodeId} {attr : String} {channel : Option String}
    (hr : scene.Rewrites scene' node attr [⟨pair.new, channel⟩])
    (hf : start.Feeds node pair.old) : Exchanged start pairs scene' := by
  have hsame : scene'.nodes.keys = scene.nodes.keys ∧ scene'.roots = scene.roots := by
    obtain ⟨_, _, _, _, rfl, _⟩ := hr
    exact ⟨Table.keys_modify _ _ _, rfl⟩
  refine ⟨hsame.1.trans h.keys, hsame.2.trans h.roots, ?_⟩
  intro a b hfeeds
  rcases Scene.feeds_of_rewrites hr hfeeds with hold | ⟨rfl, plug, hplug, rfl⟩
  · exact h.feeds a b hold
  · rw [List.mem_singleton.mp hplug]
    exact Or.inr ⟨pair, hp, rfl, hf⟩

end Exchanged

namespace Cleanup

theorem exchange_sound {start : Scene} {pairs : List Replacement} (ha : start.Acyclic)
    (hi : start.Independent pairs) : Sound pairs (Exchanged start pairs ·.scene)
      fun pair consumer => pair ∈ pairs → start.Feeds consumer.parent pair.old where
  ends := fun hs root => (hs.acyclic hi ha).isSome_walk? root
  found := by
    intro live parent pair edge hs hedge hchild hp
    have hparent : edge.consumer.parent = parent := Scene.parent_of_mem_edges hedge
    have hfeeds := Scene.feeds_of_mem_edges hedge
    rw [hchild] at hfeeds
    -- a new dependency is one on a replacement, and no replacement is replaced
    rcases hs.feeds _ _ hfeeds with hf | ⟨other, hother, hnew, _⟩
    · exact hparent ▸ hf
    · exact absurd hnew (hi.apart pair hp other hother)
  repoint := by
    intro live pair consumer hs hp hc
    rcases repoint_cases consumer pair.new live with ⟨scene, heq, hr⟩ | ⟨cause, heq⟩
    · rw [heq]
      exact hs.of_rewrites hp hr (hc hp)
    · rwa [heq]
  present := by
    intro live hs pair hp
    rw [hs.keys]
    exact hi.present pair hp
  apart := by
    intro live hs pair hp hfeeds
    rcases hs.feeds _ _ hfeeds with hf | ⟨other, hother, hnew, _⟩
    · exact ha.not_feeds_self _ (hi.held pair hp _ hf)
    · exact hi.apart pair hp other hother hnew

/-- What a reached node shows after all pairs. -/
def finalEdges (pairs : List Replacement) (before : Scene) (node : NodeId) : List Edge :=
  if node ∈ pairs.map Replacement.old then before.reads.edges node
  else (before.reads.edges node).map (Edge.inherited pairs)

theorem finalEdges_perm {before : Scene} {pairs other : List Replacement}
    (hi : before.Independent pairs) (hperm : other.Perm pairs) :
    finalEdges other before = finalEdges pairs before := by
  funext node
  have hinherited : Edge.inherited other = Edge.inherited pairs := by
    funext edge
    rw [Edge.inherited, hi.heir_perm hperm, Edge.inherited]
  unfold finalEdges
  simp only [(hperm.map Replacement.old).mem_iff, hinherited]

theorem exists_finalEdges {before : LiveScene} {pairs : List Replacement}
    (ha : before.scene.Acyclic) (hi : before.scene.Independent pairs) :
    ∃ report after, cleanUp? LiveScene.host {} pairs before = some (report, after) ∧
      Exchanged before.scene pairs after.scene ∧
      ∀ node, after.scene.reads.Reached before.scene.roots node →
        after.scene.reads.edges node = finalEdges pairs before.scene node := by
  have hsound := exchange_sound ha hi
  rw [← hi.replaced_eq] at hsound
  obtain ⟨p, hclean, hp⟩ := settled_of_sound (M := Memo) hsound
    (hi.replaced_eq.symm ▸ Exchanged.refl before.scene pairs)
  rw [hi.replaced_eq] at hp
  refine ⟨p.report, p.state, hclean, hp.held, ?_⟩
  intro node hreached
  unfold finalEdges
  split
  next hnode => exact hp.replaced node hnode
  next hnode =>
    obtain ⟨root, hroot, path⟩ := hreached
    exact hp.edges node ⟨root, mem_roots_initial_iff.mpr (Or.inl hroot), path⟩ hnode

end Cleanup

theorem Reads.Reached.congr {reads reads' : Reads} {roots : List NodeId}
    {final : NodeId → List Edge}
    (h : ∀ node, reads.Reached roots node → reads.edges node = final node)
    (h' : ∀ node, reads'.Reached roots node → reads'.edges node = final node) {node : NodeId}
    (hreached : reads.Reached roots node) : reads'.Reached roots node := by
  obtain ⟨root, hroot, path⟩ := hreached
  induction path with
  | refl => exact reached_of_mem hroot
  | tail path hlast ih =>
    obtain ⟨edge, hedge, rfl⟩ := hlast
    rw [h _ ⟨root, hroot, path⟩, ← h' _ ih] at hedge
    exact ih.child hedge

/-- In whatever order independent pairs are handled, the walks from the roots of the scene are the
same afterwards: they come to the same nodes, which show the same edges.  Nodes out of reach may differ,
since a pair that is handled early may cut off consumers of a later one. -/
theorem cleanUp?_perm {live : LiveScene} {pairs other : List Replacement}
    (hacyclic : live.scene.Acyclic) (hpairs : live.scene.Independent pairs)
    (hperm : other.Perm pairs) :
    ∃ report after report' after',
      cleanUp? LiveScene.host {} pairs live = some (report, after) ∧
      cleanUp? LiveScene.host {} other live = some (report', after') ∧
      after.scene.roots = live.scene.roots ∧ after'.scene.roots = live.scene.roots ∧
      (∀ root ∈ live.scene.roots, ∃ walk, after.scene.reads.walk? root = some walk ∧
        after'.scene.reads.walk? root = some walk) ∧
      ∀ node, (after.scene.reads.Reached live.scene.roots node ↔
          after'.scene.reads.Reached live.scene.roots node) ∧
        (after.scene.reads.Reached live.scene.roots node →
          after.scene.reads.edges node = after'.scene.reads.edges node) := by
  obtain ⟨report, after, hclean, hex, hedges⟩ := Cleanup.exists_finalEdges hacyclic hpairs
  obtain ⟨report', after', hclean', hex', hedges'⟩ :=
    Cleanup.exists_finalEdges hacyclic (hpairs.perm hperm)
  rw [Cleanup.finalEdges_perm hpairs hperm] at hedges'
  have hreached : ∀ {node}, after.scene.reads.Reached live.scene.roots node →
      after'.scene.reads.Reached live.scene.roots node := fun h => h.congr hedges hedges'
  have hsame : ∀ node, after.scene.reads.Reached live.scene.roots node →
      after.scene.reads.edges node = after'.scene.reads.edges node := fun node h =>
    (hedges node h).trans (hedges' node (hreached h)).symm
  refine ⟨report, after, report', after', hclean, hclean', hex.roots, hex'.roots, ?_, ?_⟩
  · intro root hroot
    obtain ⟨walk, hwalk⟩ :=
      Option.isSome_iff_exists.mp ((hex.acyclic hpairs hacyclic).isSome_walk? root)
    refine ⟨walk, hwalk, ?_⟩
    have hdepth : after'.scene.reads.allNodes = after.scene.reads.allNodes :=
      hex'.keys.trans hex.keys.symm
    rw [← hwalk, Reads.walk?, Reads.walk?, hdepth]
    exact (walkWithin_congr fun node path => hsame node ⟨root, hroot, path⟩).symm
  · exact fun node => ⟨⟨hreached, fun h => h.congr hedges' hedges⟩, hsame node⟩

/-- A mesh whose shader mixes two layers, both made from one image; there are a plainer shader with one
of the layers, and a second image. -/
def layered : LiveScene where
  scene :=
    { nodes := .ofPairs
        [(.ofNat 1, ⟨.ofNat 1, "mesh", none, "mesh", .ofPairs
            [("shader", ⟨.float 0.0, some ⟨.ofNat 2, none⟩⟩)], .empty⟩),
          (.ofNat 2, ⟨.ofNat 2, "mix", none, "skin", .ofPairs
            [("layers", ⟨.array [.connection ⟨.ofNat 6, none⟩, .connection ⟨.ofNat 7, none⟩],
              none⟩)], .empty⟩),
          (.ofNat 3, ⟨.ofNat 3, "file", none, "map", {}, .empty⟩),
          (.ofNat 4, ⟨.ofNat 4, "plain", none, "skin2", .ofPairs
            [("layer", ⟨.float 0.0, some ⟨.ofNat 7, none⟩⟩)], .empty⟩),
          (.ofNat 5, ⟨.ofNat 5, "file", none, "map2", {}, .empty⟩),
          (.ofNat 6, ⟨.ofNat 6, "gain", none, "dark", .ofPairs
            [("input", ⟨.float 0.0, some ⟨.ofNat 3, some "alpha"⟩⟩)], .empty⟩),
          (.ofNat 7, ⟨.ofNat 7, "gain", none, "light", .ofPairs
            [("input", ⟨.float 0.0, some ⟨.ofNat 3, none⟩⟩)], .empty⟩)]
      roots := [.ofNat 1] }
  supply := ⟨fun n => .ofNat (n + 8), 0⟩

/-- When the shader is replaced first, the dark layer is out of reach before the image is replaced, and
keeps the old one; what the mesh shows is the same. -/
theorem layered_either_order :
    ∃ report after report' after',
      cleanUp? LiveScene.host {} [⟨.ofNat 2, .ofNat 4⟩, ⟨.ofNat 3, .ofNat 5⟩] layered =
        some (report, after) ∧
      cleanUp? LiveScene.host {} [⟨.ofNat 3, .ofNat 5⟩, ⟨.ofNat 2, .ofNat 4⟩] layered =
        some (report', after') ∧
      after.scene ≠ after'.scene ∧
      ∃ walk, after.scene.reads.walk? (.ofNat 1) = some walk ∧
        after'.scene.reads.walk? (.ofNat 1) = some walk ∧ walk.length = 3 := by
  have hacyclic : layered.scene.Acyclic :=
    Scene.acyclic_of_rank (fun id => [0, 9, 8, 1, 8, 1, 5, 5].getD id.word.toNat 0) (by decide)
  have hpairs : layered.scene.Independent [⟨.ofNat 2, .ofNat 4⟩, ⟨.ofNat 3, .ofNat 5⟩] := by
    decide +kernel
  obtain ⟨report, after, report', after', hclean, hclean', _, _, hwalks, _⟩ :=
    cleanUp?_perm hacyclic hpairs (.swap _ _ [])
  have hscenes : (cleanUp? LiveScene.host {} [⟨.ofNat 2, .ofNat 4⟩, ⟨.ofNat 3, .ofNat 5⟩]
      layered).map (fun result => result.2.scene) ≠
        (cleanUp? LiveScene.host {} [⟨.ofNat 3, .ofNat 5⟩, ⟨.ofNat 2, .ofNat 4⟩]
          layered).map (fun result => result.2.scene) := by decide +kernel
  have hlength : (cleanUp? LiveScene.host {} [⟨.ofNat 2, .ofNat 4⟩, ⟨.ofNat 3, .ofNat 5⟩]
      layered).bind (fun result => (result.2.scene.reads.walk? (.ofNat 1)).map List.length) =
        some 3 := by decide +kernel
  obtain ⟨walk, hwalk, hwalk'⟩ := hwalks (.ofNat 1) (by decide)
  rw [hclean, hclean'] at hscenes
  rw [hclean, Option.bind_some, hwalk] at hlength
  exact ⟨report, after, report', after', hclean, hclean', fun heq => hscenes (congrArg some heq),
    walk, hwalk, hwalk', Option.some.inj hlength⟩

end ShaderMigration
