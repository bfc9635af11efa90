import ShaderMigration.Proofs.ArrayBridges

namespace ShaderMigration

open Relation (ReflTransGen TransGen)

/-- With one more step, a path is an old one or goes through that step. -/
theorem transGen_of_added {α : Type} {r s : α → α → Prop} {a b : α}
    (hadded : ∀ x y, s x y → r x y ∨ x = a ∧ y = b) (hback : ¬ ReflTransGen r b a) {x y : α}
    (path : TransGen s x y) : TransGen r x y ∨ ReflTransGen r x a ∧ ReflTransGen r b y := by
  induction path with
  | single step =>
    rcases hadded _ _ step with hold | ⟨rfl, rfl⟩
    · exact Or.inl (.single hold)
    · exact Or.inr ⟨.refl, .refl⟩
  | tail _ step ih =>
    rcases hadded _ _ step with hold | ⟨rfl, rfl⟩
    · rcases ih with path | ⟨hto, hfrom⟩
      · exact Or.inl (path.tail hold)
      · exact Or.inr ⟨hto, hfrom.tail hold⟩
    · rcases ih with path | ⟨_, hfrom⟩
      · exact Or.inr ⟨path.to_reflTransGen, .refl⟩
      · exact absurd hfrom hback

namespace Scene

variable {scene scene' : Scene} {node source a b : NodeId} {attr : String}

theorem feeds_of_rewrites_ne {offered : List Plug} (h : scene.Rewrites scene' node attr offered)
    (hne : a ≠ node) (hf : scene.Feeds a b) : scene'.Feeds a b := by
  obtain ⟨_, old, new, _, rfl, _⟩ := h
  obtain ⟨name, slot, hslot, hplug⟩ := hf
  refine ⟨name, slot, ?_, hplug⟩
  rw [slot?_putSlot, if_neg fun hhere => hne hhere.1, hslot]

/-- What led to the written node still does: a path ends where it first comes to that node. -/
theorem leads_of_rewrites {offered : List Plug} (h : scene.Rewrites scene' node attr offered)
    (path : ReflTransGen scene.Feeds a node) : ReflTransGen scene'.Feeds a node := by
  induction path using ReflTransGen.head_induction_on with
  | refl => exact .refl
  | @head first next step _ ih =>
    by_cases hne : first = node
    · rw [hne]
    · exact ih.head (feeds_of_rewrites_ne h hne step)

theorem Acyclic.of_rewrites {channel : Option String} (hacyclic : scene.Acyclic)
    (h : scene.Rewrites scene' node attr [⟨source, channel⟩])
    (hback : ¬ ReflTransGen scene.Feeds source node) : scene'.Acyclic := by
  have hadded : ∀ x y, scene'.Feeds x y → scene.Feeds x y ∨ x = node ∧ y = source := by
    intro x y hf
    rcases feeds_of_rewrites h hf with hold | ⟨rfl, plug, hplug, rfl⟩
    · exact Or.inl hold
    · rw [List.mem_singleton.mp hplug]
      exact Or.inr ⟨rfl, rfl⟩
  intro x hcycle
  rcases transGen_of_added hadded hback hcycle with hold | ⟨hto, hfrom⟩
  · exact hacyclic x hold
  · exact hback (hfrom.trans hto)

end Scene

namespace Cleanup

variable {M : Type} [Memory M]

/-- Repointing a slot that shows a plug closes a cycle exactly when the new node depends on the one
that has the slot. -/
theorem acyclic_repoint_iff {live : LiveScene} {consumer : Consumer} {new : NodeId}
    (hacyclic : live.scene.Acyclic) (hshown : Shown live.scene consumer)
    (hnew : new ∈ live.scene.nodes.keys) (hapart : consumer.parent ≠ new) :
    (repoint LiveScene.host consumer new live).2.scene.Acyclic ↔
      ¬ ReflTransGen live.scene.Feeds new consumer.parent := by
  obtain ⟨edge, hedge, rfl⟩ := hshown
  obtain ⟨scene', hrepoint, hedges⟩ := repoint_edge hedge hnew hapart.symm
  have hrewrites :
      live.scene.Rewrites scene' edge.consumer.parent edge.consumer.attr [⟨new, edge.channel⟩] := by
    rcases repoint_cases edge.consumer new live with ⟨scene, heq, hr⟩ | ⟨cause, heq⟩
    · obtain rfl : scene' = scene :=
        congrArg LiveScene.scene (congrArg Prod.snd (hrepoint.symm.trans heq))
      exact hr
    · cases congrArg Prod.fst (hrepoint.symm.trans heq)
  rw [hrepoint]
  refine ⟨fun hafter hback => ?_, fun hback => hacyclic.of_rewrites hrewrites hback⟩
  -- the new edge leads from the consumer to where the way back starts
  have hnewEdge : edge.repointed [edge.consumer] new ∈ scene'.reads.edges edge.consumer.parent := by
    rw [hedges]
    exact List.mem_map_of_mem hedge
  have hfeeds := Scene.feeds_of_mem_edges hnewEdge
  rw [Edge.repointed_of_mem (List.mem_singleton.mpr rfl)] at hfeeds
  exact hafter _ (TransGen.head' hfeeds (Scene.leads_of_rewrites hrewrites hback))

theorem shown_foldl {pair : Replacement} {consumers : List Consumer} {p : Progress LiveScene M}
    (hc : ∀ consumer ∈ consumers, Shown p.state.scene consumer ∧ consumer.parent ≠ pair.new)
    {other : Consumer} (hother : Shown p.state.scene other) :
    Shown (consumers.foldl (repointConsumer LiveScene.host pair) p).state.scene other := by
  induction consumers generalizing p with
  | nil => exact hother
  | cons consumer rest ih =>
    obtain ⟨hshown, hapart⟩ := hc consumer (by simp)
    have hstate := state_repointConsumer LiveScene.host pair p consumer
    refine ih (fun later hlater => ?_) ?_
    · obtain ⟨hshown', hapart'⟩ := hc later (by simp [hlater])
      rw [hstate]
      exact ⟨shown_repoint hshown hapart hshown', hapart'⟩
    · rw [hstate]
      exact shown_repoint hshown hapart hother

/-- The scene is the one in which a cleanup without a memory repoints a consumer for a pair. -/
def ComesTo (M : Type) [Memory M] (live : LiveScene) (pairs : List Replacement)
    (pair : Replacement) (consumer : Consumer) (mid : LiveScene) : Prop :=
  ∃ done rest found first others, ∃ p : Progress LiveScene M,
    replaced pairs = done ++ pair :: rest ∧
    done.foldlM (repointPair? LiveScene.host ((replaced pairs).map Replacement.old))
      (initial LiveScene.host {} pairs live) = some p ∧
    p.state.scene.reads.consumers? p.resolver.roots pair.old = some found ∧
    kept ((replaced pairs).map Replacement.old) pair found = first ++ consumer :: others ∧
    (first.foldl (repointConsumer LiveScene.host pair) p).state = mid

section Run

variable {live : LiveScene} {pairs : List Replacement} {pair : Replacement} {consumer : Consumer}
  {mid : LiveScene}

theorem ComesTo.mem (h : ComesTo M live pairs pair consumer mid) : pair ∈ pairs := by
  obtain ⟨done, rest, _, _, _, _, hsplit, _⟩ := h
  have hmem : pair ∈ replaced pairs := by simp [hsplit]
  exact List.mem_of_mem_filter hmem

/-- The consumers found together stay slots that show plugs until their turn comes. -/
theorem ComesTo.shown (h : ComesTo M live pairs pair consumer mid) :
    Shown mid.scene consumer ∧ consumer.parent ≠ pair.new := by
  obtain ⟨_, _, found, first, others, p, _, _, hfound, hkept, rfl⟩ := h
  have hshown : ∀ other ∈ first ++ consumer :: others,
      Shown p.state.scene other ∧ other.parent ≠ pair.new := by
    intro other hother
    obtain ⟨hmem, _, hapart⟩ := mem_kept_iff.mp (hkept ▸ hother)
    exact ⟨shown_of_mem_consumers? hfound hmem, hapart⟩
  obtain ⟨hhere, hapart⟩ := hshown consumer (by simp)
  exact ⟨shown_foldl (fun other hother => hshown other (by simp [hother])) hhere, hapart⟩

theorem resolver_foldlM {olds : List NodeId} {done : List Replacement} {p q : Progress LiveScene M}
    (hplain : p.resolver.memo = none)
    (h : done.foldlM (repointPair? LiveScene.host olds) p = some q) : q.resolver = p.resolver := by
  induction done generalizing p with
  | nil =>
    cases h
    rfl
  | cons pair done ih =>
    rw [List.foldlM_cons] at h
    obtain ⟨later, hlater, hrest⟩ := Option.bind_eq_some_iff.mp h
    rw [repointPair?_of_memo_none olds hplain] at hlater
    obtain ⟨found, _, rfl⟩ := Option.map_eq_some_iff.mp hlater
    have hfirst := resolver_foldl LiveScene.host pair (kept olds pair found) hplain
    exact (ih (hfirst ▸ hplain) hrest).trans hfirst

section Holds

variable {I : LiveScene → Prop} (hstart : I live)
  (hstep : ∀ {pair consumer mid}, ComesTo M live pairs pair consumer mid → I mid →
    I (repoint LiveScene.host consumer pair.new mid).2)

include hstep in
/-- What every repointing keeps holds after some of those for one pair. -/
theorem holds_of_foldl {done rest : List Replacement} {found first others : List Consumer}
    {p : Progress LiveScene M} (hs : I p.state) (hsplit : replaced pairs = done ++ pair :: rest)
    (hrun : done.foldlM (repointPair? LiveScene.host ((replaced pairs).map Replacement.old))
      (initial LiveScene.host {} pairs live) = some p)
    (hfound : p.state.scene.reads.consumers? p.resolver.roots pair.old = some found)
    (hkept : kept ((replaced pairs).map Replacement.old) pair found = first ++ others) :
    I (first.foldl (repointConsumer LiveScene.host pair) p).state := by
  induction first using List.reverseRecOn generalizing others with
  | nil => exact hs
  | append_singleton first consumer ih =>
    rw [List.append_assoc, List.singleton_append] at hkept
    rw [List.foldl_append, List.foldl_cons, List.foldl_nil, state_repointConsumer]
    exact hstep ⟨done, rest, found, first, others, p, hsplit, hrun, hfound, hkept, rfl⟩ (ih hkept)

include hstart hstep

theorem holds_of_foldlM {done rest : List Replacement} {p : Progress LiveScene M}
    (hsplit : replaced pairs = done ++ rest)
    (hrun : done.foldlM (repointPair? LiveScene.host ((replaced pairs).map Replacement.old))
      (initial LiveScene.host {} pairs live) = some p) : I p.state := by
  induction done using List.reverseRecOn generalizing rest p with
  | nil =>
    cases hrun
    exact hstart
  | append_singleton done pair ih =>
    rw [List.append_assoc, List.singleton_append] at hsplit
    rw [List.foldlM_append] at hrun
    obtain ⟨before, hbefore, hlast⟩ := Option.bind_eq_some_iff.mp hrun
    have hplain : before.resolver.memo = none := by
      rw [resolver_foldlM (memo_initial true pairs live) hbefore]
      exact memo_initial true pairs live
    simp only [List.foldlM_cons, List.foldlM_nil, bind_pure,
      repointPair?_of_memo_none _ hplain] at hlast
    obtain ⟨found, hfound, rfl⟩ := Option.map_eq_some_iff.mp hlast
    exact holds_of_foldl hstep (ih hsplit hbefore) hsplit hbefore hfound (List.append_nil _).symm

theorem ComesTo.holds (h : ComesTo M live pairs pair consumer mid) : I mid := by
  obtain ⟨done, rest, found, first, others, p, hsplit, hrun, hfound, hkept, rfl⟩ := h
  exact holds_of_foldl hstep (holds_of_foldlM hstart hstep hsplit hrun) hsplit hrun hfound hkept

theorem holds_of_turnsIn {later : LiveScene}
    (h : TurnsIn M LiveScene.host {} pairs live later) : I later := by
  obtain ⟨done, pair, rest, hsplit, p, hrun, rfl⟩ := h
  exact holds_of_foldlM hstart hstep hsplit hrun

theorem holds_of_cleanUp? {report : Report} {after : LiveScene}
    (h : cleanUp? (M := M) LiveScene.host {} pairs live = some (report, after)) : I after := by
  rw [cleanUp?_eq] at h
  obtain ⟨p, hrun, heq⟩ := Option.map_eq_some_iff.mp h
  obtain ⟨rfl, rfl⟩ := Prod.mk.inj heq
  exact holds_of_foldlM hstart hstep (List.append_nil _).symm hrun

end Holds

theorem ComesTo.present (h : ComesTo M live pairs pair consumer mid)
    (hpresent : ∀ pair ∈ pairs, pair.new ∈ live.scene.nodes.keys) :
    pair.new ∈ mid.scene.nodes.keys := by
  refine h.holds (I := fun later => ∀ pair ∈ pairs, pair.new ∈ later.scene.nodes.keys) hpresent
    (fun {pair consumer mid} _ hmid other hother => ?_) pair h.mem
  rcases repoint_cases consumer pair.new mid with ⟨scene, heq, hr⟩ | ⟨cause, heq⟩
  · rw [heq]
    exact (Scene.Grows.of_rewrites hr).mem_keys (hmid other hother)
  · rw [heq]
    exact hmid other hother

/-- For one pair with one consumer a cleanup repoints that consumer, and does so at the start. -/
theorem ComesTo.eq_of_singleton {other : Replacement} {only : Consumer}
    (honly : (live.scene.reads.consumers?
      (initial (M := M) LiveScene.host {} [pair] live).resolver.roots pair.old).map
        (kept [pair.old] pair) = some [only])
    (h : ComesTo M live [pair] other consumer mid) :
    other = pair ∧ consumer = only ∧ mid = live := by
  obtain rfl : other = pair := List.mem_singleton.mp h.mem
  obtain ⟨done, rest, found, first, others, p, hsplit, hrun, hfound, hkept, rfl⟩ := h
  have hlength := congrArg List.length hsplit
  have hle : (replaced [other]).length ≤ 1 := List.length_filter_le ..
  rw [List.length_append, List.length_cons] at hlength
  obtain rfl : done = [] := List.eq_nil_of_length_eq_zero (by omega)
  obtain rfl : rest = [] := List.eq_nil_of_length_eq_zero (by omega)
  cases hrun
  rw [hsplit] at hkept
  have hone : some (kept [other.old] other found) = some [only] :=
    (congrArg (Option.map (kept [other.old] other)) hfound).symm.trans honly
  rw [Option.some.injEq] at hone
  have hfirst : [only] = first ++ consumer :: others := hone.symm.trans hkept
  cases first with
  | nil => exact ⟨rfl, (List.cons.inj hfirst).1.symm, rfl⟩
  | cons head first => simp at hfirst

end Run

/-- A consumer is repointed at a replacement that depends on it at that moment. -/
def ClosesLoop (M : Type) [Memory M] (live : LiveScene) (pairs : List Replacement) : Prop :=
  ∃ pair consumer mid, ComesTo M live pairs pair consumer mid ∧
    ReflTransGen mid.scene.Feeds pair.new consumer.parent

end Cleanup

/-- A cleanup of a scene without cycles ends without ever having closed one, unless it repoints a
consumer at a replacement that depends on it; and then it closes one. -/
theorem cleanUp?_acyclic_iff {M : Type} [Memory M] [LawfulMemory M] {live : LiveScene}
    {pairs : List Replacement} (hacyclic : live.scene.Acyclic)
    (hpresent : ∀ pair ∈ pairs, pair.new ∈ live.scene.nodes.keys) :
    ¬ Cleanup.ClosesLoop M live pairs ↔
      (∃ report after, cleanUp? (M := M) LiveScene.host {} pairs live = some (report, after) ∧
        after.scene.Acyclic) ∧
      ∀ pair consumer mid, Cleanup.ComesTo M live pairs pair consumer mid →
        (Cleanup.repoint LiveScene.host consumer pair.new mid).2.scene.Acyclic := by
  have hiff : ∀ {pair consumer mid}, Cleanup.ComesTo M live pairs pair consumer mid →
      mid.scene.Acyclic → ((Cleanup.repoint LiveScene.host consumer pair.new mid).2.scene.Acyclic ↔
        ¬ ReflTransGen mid.scene.Feeds pair.new consumer.parent) := by
    intro pair consumer mid h hmid
    obtain ⟨hshown, hapart⟩ := h.shown
    exact Cleanup.acyclic_repoint_iff hmid hshown (h.present hpresent) hapart
  constructor
  · intro hloops
    have hstep : ∀ {pair consumer mid}, Cleanup.ComesTo M live pairs pair consumer mid →
        mid.scene.Acyclic →
          (Cleanup.repoint LiveScene.host consumer pair.new mid).2.scene.Acyclic :=
      fun h hmid => (hiff h hmid).mpr fun hback => hloops ⟨_, _, _, h, hback⟩
    have hends : (cleanUp? (M := M) LiveScene.host {} pairs live).isSome :=
      Cleanup.isSome_cleanUp? fun later hturn node _ =>
        (Cleanup.holds_of_turnsIn hacyclic hstep hturn).not_leads_self node
    obtain ⟨⟨report, after⟩, hrun⟩ := Option.isSome_iff_exists.mp hends
    exact ⟨⟨report, after, hrun, Cleanup.holds_of_cleanUp? hacyclic hstep hrun⟩,
      fun pair consumer mid h => hstep h (h.holds hacyclic hstep)⟩
  · intro h hloops
    obtain ⟨_, hstep⟩ := h
    obtain ⟨pair, consumer, mid, hcomes, hback⟩ := hloops
    have hmid : mid.scene.Acyclic :=
      hcomes.holds (I := fun later => later.scene.Acyclic) hacyclic fun h _ => hstep _ _ _ h
    exact (hiff hcomes hmid).mp (hstep _ _ _ hcomes) hback

/-- A mesh that shows a phong shader, and a layer to replace it.  A blend reads the shader too, and
the layer may lie on either. -/
def layeredOver (base : NodeId) : LiveScene where
  scene :=
    { schemas := {}
      nodes := .ofPairs
        [(.ofNat 1, ⟨.ofNat 1, "mesh", none, "mesh", .ofPairs
            [("shader", ⟨.float 0.0, some ⟨.ofNat 2, none⟩⟩)], .empty⟩),
          (.ofNat 2, ⟨.ofNat 2, "phong", none, "skin", {}, .empty⟩),
          (.ofNat 3, ⟨.ofNat 3, "layer", none, "skin_layer", .ofPairs
            [("base", ⟨.float 0.0, some ⟨base, none⟩⟩)], .empty⟩),
          (.ofNat 4, ⟨.ofNat 4, "blend", none, "skin_blend", .ofPairs
            [("input", ⟨.float 0.0, some ⟨.ofNat 2, none⟩⟩)], .empty⟩),
          (.ofNat 5, ⟨.ofNat 5, "phong", none, "hair", {}, .empty⟩),
          (.ofNat 6, ⟨.ofNat 6, "layer", none, "hair_layer", {}, .empty⟩)]
      roots := [.ofNat 1] }
  supply := ⟨fun n => .ofNat (n + 7), 0⟩

/-- A layer that lies on the shader itself takes its place in the mesh. -/
theorem layeredOver_shader :
    ¬ Cleanup.ClosesLoop Memo (layeredOver (.ofNat 2)) [⟨.ofNat 2, .ofNat 3⟩] ∧
      ∃ report after, cleanUp? (M := Memo) LiveScene.host {} [⟨.ofNat 2, .ofNat 3⟩]
        (layeredOver (.ofNat 2)) = some (report, after) ∧ after.scene.Acyclic := by
  have hacyclic : (layeredOver (.ofNat 2)).scene.Acyclic :=
    Scene.acyclic_of_rank (fun id => [0, 3, 1, 2, 2].getD id.word.toNat 0) (by decide +kernel)
  have hpresent : ∀ pair ∈ ([⟨.ofNat 2, .ofNat 3⟩] : List Replacement),
      pair.new ∈ (layeredOver (.ofNat 2)).scene.nodes.keys := by decide
  have hfound : ((layeredOver (.ofNat 2)).scene.reads.consumers? [.ofNat 1, .ofNat 3]
      (.ofNat 2)).map (Cleanup.kept [.ofNat 2] ⟨.ofNat 2, .ofNat 3⟩) =
        some [⟨.ofNat 1, "shader", none, none⟩] := by decide +kernel
  have hafter : (Cleanup.repoint LiveScene.host ⟨.ofNat 1, "shader", none, none⟩ (.ofNat 3)
      (layeredOver (.ofNat 2))).2.scene.Acyclic :=
    Scene.acyclic_of_rank (fun id => [0, 3, 1, 2, 2].getD id.word.toNat 0) (by decide +kernel)
  have hloops :
      ¬ Cleanup.ClosesLoop Memo (layeredOver (.ofNat 2)) [⟨.ofNat 2, .ofNat 3⟩] := by
    intro h
    obtain ⟨pair, consumer, mid, hcomes, hback⟩ := h
    obtain ⟨hshown, hapart⟩ := hcomes.shown
    have hnew := hcomes.present hpresent
    obtain ⟨rfl, rfl, rfl⟩ := hcomes.eq_of_singleton hfound
    exact (Cleanup.acyclic_repoint_iff hacyclic hshown hnew hapart).mp hafter hback
  exact ⟨hloops, ((cleanUp?_acyclic_iff hacyclic hpresent).mp hloops).1⟩

/-- A layer that lies on the blend takes the place of the shader in both, which closes a cycle; the
next pair is never reached. -/
theorem layeredOver_blend_not_acyclic :
    (layeredOver (.ofNat 4)).scene.Acyclic ∧
      (∀ pair ∈ ([⟨.ofNat 2, .ofNat 3⟩, ⟨.ofNat 5, .ofNat 6⟩] : List Replacement),
        pair.new ∈ (layeredOver (.ofNat 4)).scene.nodes.keys) ∧
      (∃ report after, cleanUp? (M := Memo) LiveScene.host {} [⟨.ofNat 2, .ofNat 3⟩]
          (layeredOver (.ofNat 4)) = some (report, after) ∧ report.isClean = true ∧
        ¬ after.scene.Acyclic ∧ after.scene.reads.walk? (.ofNat 1) = none) ∧
      cleanUp? (M := Memo) LiveScene.host {} [⟨.ofNat 2, .ofNat 3⟩, ⟨.ofNat 5, .ofNat 6⟩]
        (layeredOver (.ofNat 4)) = none := by
  have hshown : ((cleanUp? (M := Memo) LiveScene.host {} [⟨.ofNat 2, .ofNat 3⟩]
      (layeredOver (.ofNat 4))).map fun run =>
        (run.1.isClean, run.2.scene.reads.connections (.ofNat 3) "base",
          run.2.scene.reads.connections (.ofNat 4) "input",
          (run.2.scene.reads.walk? (.ofNat 1)).isNone)) =
        some (true, .ok [⟨.ofNat 4, none⟩], .ok [⟨.ofNat 3, none⟩], true) := by decide +kernel
  have hends : (cleanUp? (M := Memo) LiveScene.host {}
      [⟨.ofNat 2, .ofNat 3⟩, ⟨.ofNat 5, .ofNat 6⟩] (layeredOver (.ofNat 4))).isNone := by
    decide +kernel
  obtain ⟨⟨report, after⟩, hrun, hafter⟩ := Option.map_eq_some_iff.mp hshown
  simp only [Prod.mk.injEq] at hafter
  obtain ⟨hclean, hlayer, hblend, hwalk⟩ := hafter
  have hbefore : (layeredOver (.ofNat 4)).scene.Acyclic :=
    Scene.acyclic_of_rank (fun id => [0, 4, 1, 3, 2].getD id.word.toNat 0) (by decide +kernel)
  refine ⟨hbefore, by decide, ⟨report, after, hrun, hclean, fun hacyclic => ?_,
    Option.isNone_iff_eq_none.mp hwalk⟩, Option.isNone_iff_eq_none.mp hends⟩
  have hdown := Scene.feeds_of_connections hlayer (List.mem_singleton.mpr rfl)
  have hback := Scene.feeds_of_connections hblend (List.mem_singleton.mpr rfl)
  exact hacyclic _ (.tail (.single hdown) hback)

end ShaderMigration
