import ShaderMigration.Proofs.ArrayBridges
import ShaderMigration.Proofs.BuildOrigins

namespace ShaderMigration

/-- A cycle of a relation is one of another when every step that can be gone back is a step of the
other. -/
theorem transGen_of_back {α : Type} {r s : α → α → Prop}
    (h : ∀ a b, r a b → Relation.ReflTransGen r b a → s a b) {a b : α}
    (path : Relation.TransGen r a b) (back : Relation.ReflTransGen r b a) :
    Relation.TransGen s a b := by
  induction path with
  | single step => exact .single (h _ _ step back)
  | tail path step ih =>
    exact .tail (ih (back.head step)) (h _ _ step (back.trans path.to_reflTransGen))

namespace Build

section Feeds

variable {options : BuildOptions} {start : LiveScene} {specs made : List NodeSpec}
  {log : List (Nat × Call)} {building : Building LiveScene} {place : Nat}

theorem mem_of_mem_callsAt {call : Call} (h : call ∈ callsAt place log) : (place, call) ∈ log := by
  obtain ⟨⟨other, asked⟩, hmem, rfl⟩ := List.mem_map.mp h
  obtain ⟨hlog, hplace⟩ := List.mem_filter.mp hmem
  exact beq_iff_eq.mp hplace ▸ hlog

def Connects (options : BuildOptions) (start : LiveScene) (specs : List NodeSpec) (scene : Scene)
    (place : Nat) (node : NodeId) : Prop :=
  (∃ other < specs.length, place < other ∧ node = start.idAt other) ∨
    (∃ spec tag, specs[place]? = some spec ∧ spec.feed = .tagged tag) ∧
      scene.reads.connections (start.idAt place) options.primaryInput = .ok [⟨node, none⟩]

/-- The plugs after a build are those of older nodes, which were there before, and those that connect
new nodes. -/
theorem Replay.feeds_cases (h : Replay start made log building)
    (horders : ∀ entry ∈ log, entry.2.order.Drawn options start specs entry.1)
    (hschemas : start.scene.SchemasPlugFree) {a b : NodeId}
    (hfeeds : building.state.scene.Feeds a b) :
    a ∈ start.scene.nodes.keys ∧ start.scene.Feeds a b ∨ ∃ place < made.length,
      a = start.idAt place ∧ Connects options start specs building.state.scene place b := by
  obtain ⟨attr, slot, hslot, plug, hplug, rfl⟩ := hfeeds
  have hkey := Scene.mem_keys_of_slot? hslot
  rw [h.keys] at hkey
  rcases List.mem_append.mp hkey with hold | hnew
  · exact Or.inl ⟨hold, attr, slot, (h.older a hold attr).symm.trans hslot, plug, hplug, rfl⟩
  · obtain ⟨place, hplace, rfl⟩ := List.mem_map.mp hnew
    have hlt := List.mem_range.mp hplace
    refine Or.inr ⟨place, hlt, rfl, ?_⟩
    have hheld := (h.held place made[place] (List.getElem?_eq_getElem hlt) attr).symm.trans hslot
    have hdrawn : ∀ call ∈ callsAt place log, call.order.Drawn options start specs place :=
      fun call hcall => horders _ (mem_of_mem_callsAt hcall)
    obtain ⟨hvalue, hinput⟩ := Ledger.input_of_held_after
      (fun attr slot => Scene.plugs_of_freshSlots hschemas) (fun call hcall key attr value heq => by
        have hcases := hdrawn call hcall
        rw [heq] at hcases
        rcases hcases with hfree | ⟨other, _, _, rfl⟩ | ⟨_, _, source, rfl⟩
        · exact Or.inl hfree
        · exact Or.inr ⟨_, rfl⟩
        · exact Or.inr ⟨_, rfl⟩) hheld
    -- no stored value holds a plug, so the plug is what drives the slot
    have hsource : slot.input = some plug := by
      simpa [Slot.plugs, hvalue] using hplug
    obtain ⟨call, hcall, key, heq⟩ := hinput plug hsource
    have hcases := hdrawn call hcall
    rw [heq] at hcases
    rcases hcases with hfree | ⟨other, hother, hafter, hlink⟩ | ⟨rfl, hspec, source, hlink⟩
    · simp [Value.plugs] at hfree
    · cases hlink
      exact Or.inl ⟨other, hother, hafter, rfl⟩
    · cases hlink
      refine Or.inr ⟨hspec, except_map_eq_ok_iff.mpr ⟨slot, Scene.slot_eq_ok_iff.mpr hslot, ?_⟩⟩
      rw [hsource]
      rfl

end Feeds

/-- A plug of an older node, or of a new node to one that is made later. -/
def Falls (start : LiveScene) (total : Nat) (a b : NodeId) : Prop :=
  a ∈ start.scene.nodes.keys ∧ start.scene.Feeds a b ∨
    ∃ place < total, a = start.idAt place ∧ ∃ other < total, place < other ∧ b = start.idAt other

section Falls

variable {start : LiveScene} {total : Nat} (hunused : start.NextUnused total)
include hunused

theorem Falls.of_new {place : Nat} {b : NodeId} (h : Falls start total (start.idAt place) b)
    (hplace : place < total) : ∃ other < total, place < other ∧ b = start.idAt other := by
  rcases h with ⟨hold, _⟩ | ⟨same, hsame, heq, hlater⟩
  · exact absurd hold (hunused.absent place hplace)
  · exact hunused.idAt_inj hplace hsame heq ▸ hlater

theorem Falls.of_old {a b : NodeId} (h : Falls start total a b)
    (hold : a ∈ start.scene.nodes.keys) : start.scene.Feeds a b := by
  rcases h with ⟨_, hfeeds⟩ | ⟨place, hplace, rfl, _⟩
  · exact hfeeds
  · exact absurd hold (hunused.absent place hplace)

theorem later_of_falls {place : Nat} {b : NodeId}
    (h : Relation.TransGen (Falls start total) (start.idAt place) b) (hplace : place < total) :
    ∃ other < total, place < other ∧ b = start.idAt other := by
  induction h with
  | single step => exact step.of_new hunused hplace
  | tail _ step ih =>
    obtain ⟨mid, hmid, hlt, rfl⟩ := ih
    obtain ⟨other, hother, hlt', rfl⟩ := step.of_new hunused hmid
    exact ⟨other, hother, by omega, rfl⟩

theorem feeds_of_falls {a b : NodeId} (h : Relation.TransGen (Falls start total) a b)
    (hold : a ∈ start.scene.nodes.keys) :
    Relation.TransGen start.scene.Feeds a b ∨ ∃ place < total, b = start.idAt place := by
  induction h with
  | single step => exact Or.inl (.single (step.of_old hunused hold))
  | tail _ step ih =>
    rcases ih with path | ⟨place, hplace, rfl⟩
    · rcases step with ⟨_, hfeeds⟩ | ⟨_, _, _, other, hother, _, rfl⟩
      · exact Or.inl (path.tail hfeeds)
      · exact Or.inr ⟨other, hother, rfl⟩
    · obtain ⟨other, hother, _, rfl⟩ := step.of_new hunused hplace
      exact Or.inr ⟨other, hother, rfl⟩

/-- Older plugs go on among older nodes or leave them for good, and the others lead to later nodes. -/
theorem not_transGen_falls (hacyclic : start.scene.Acyclic) (a : NodeId) :
    ¬ Relation.TransGen (Falls start total) a a := by
  intro hcycle
  obtain ⟨b, hfirst, _⟩ := Relation.TransGen.head'_iff.mp hcycle
  rcases hfirst with ⟨hold, _⟩ | ⟨place, hplace, rfl, _⟩
  · rcases feeds_of_falls hunused hcycle hold with path | ⟨place, hplace, rfl⟩
    · exact hacyclic a path
    · exact hunused.absent place hplace hold
  · obtain ⟨other, hother, hlt, heq⟩ := later_of_falls hunused hcycle hplace
    have hsame := hunused.idAt_inj hplace hother heq
    omega

end Falls

/-- The reference of the node at a place leads to a node that depends on it. -/
def LoopsBack (options : BuildOptions) (start : LiveScene) (specs : List NodeSpec) (scene : Scene)
    (place : Nat) : Prop :=
  (∃ spec tag, specs[place]? = some spec ∧ spec.feed = .tagged tag) ∧ ∃ source,
    scene.reads.connections (start.idAt place) options.primaryInput = .ok [⟨source, none⟩] ∧
      Relation.ReflTransGen scene.Feeds source (start.idAt place)

end Build

/-- Whatever is asked of the scene ends: walks, searches for consumers, and cleanups that do not close
a cycle themselves before they come to their last pair. -/
structure LiveScene.Traversable (M : Type) [Memory M] (live : LiveScene) : Prop where
  walks : ∀ root, (live.scene.reads.walk? root).isSome
  searches : ∀ roots node, (live.scene.reads.consumers? roots node).isSome
  cleanups : ∀ options pairs,
    (∀ later, Cleanup.TurnsIn M LiveScene.host options pairs live later → later.scene.Acyclic) →
      (cleanUp? (M := M) LiveScene.host options pairs live).isSome
  cleanup : ∀ options pair, (cleanUp? (M := M) LiveScene.host options [pair] live).isSome

theorem Cleanup.eq_of_turnsIn_singleton {M : Type} [Memory M] {options : Cleanup.Options}
    {pair : Replacement} {live later : LiveScene}
    (h : TurnsIn M LiveScene.host options [pair] live later) : later = live := by
  obtain ⟨done, first, rest, hsplit, p, hfold, rfl⟩ := h
  have hlength := congrArg List.length hsplit
  have hle : (replaced [pair]).length ≤ 1 := List.length_filter_le ..
  rw [List.length_append, List.length_cons] at hlength
  obtain rfl : done = [] := List.eq_nil_of_length_eq_zero (by omega)
  cases hfold
  rfl

theorem LiveScene.traversable_of_acyclic {M : Type} [Memory M] [LawfulMemory M] {live : LiveScene}
    (h : live.scene.Acyclic) : live.Traversable M := by
  have hcleanups : ∀ options pairs,
      (∀ later, Cleanup.TurnsIn M LiveScene.host options pairs live later → later.scene.Acyclic) →
        (cleanUp? (M := M) LiveScene.host options pairs live).isSome := fun options pairs hturns =>
    Cleanup.isSome_cleanUp? fun later hturn node _ => (hturns later hturn).not_leads_self node
  refine ⟨h.isSome_walk?, fun roots node => Reads.isSome_consumers? fun root _ => h.isSome_walk? root,
    hcleanups, fun options pair => hcleanups options [pair] fun later hturn => ?_⟩
  exact Cleanup.eq_of_turnsIn_singleton hturn ▸ h

/-- However a build ends, it closes a cycle only by a reference that leads to a node which depends on
the one that refers.  Where it closed none, all that is asked of the scene ends. -/
theorem acyclic_iff_of_build {M : Type} [Memory M] [LawfulMemory M] {tree : NodeTree}
    {options : BuildOptions} {live after : LiveScene} {result : Except HostError BuildOutput}
    (hacyclic : live.scene.Acyclic) (hschemas : live.scene.SchemasPlugFree)
    (hplugs : ∀ spec ∈ tree.described live.scene.schemas, spec.PlugFree)
    (hunused : live.NextUnused (tree.described live.scene.schemas).length)
    (hrun : tree.build LiveScene.host options live = (result, after)) :
    (after.scene.Acyclic ↔ ∀ place, ¬ Build.LoopsBack options live
      (tree.described live.scene.schemas) after.scene place) ∧
      (after.scene.Acyclic → after.Traversable M) := by
  refine ⟨⟨?_, fun hloops => ?_⟩, LiveScene.traversable_of_acyclic⟩
  · intro h place hloop
    obtain ⟨_, source, hconnections, hback⟩ := hloop
    have hfeeds := Scene.feeds_of_connections hconnections (List.mem_singleton.mpr rfl)
    exact h _ (Relation.TransGen.head' hfeeds hback)
  · obtain ⟨made, log, final, hmade, h, rfl, horders⟩ :=
      Build.exists_drawn_of_build hplugs hunused hrun
    -- a cycle can be gone back from each of its steps, so none of them is the answer to a reference
    intro a hcycle
    refine Build.not_transGen_falls hunused hacyclic a (transGen_of_back ?_ hcycle .refl)
    intro b c hfeeds hback
    rcases h.feeds_cases horders hschemas hfeeds with hold | ⟨place, hplace, rfl, hconnects⟩
    · exact Or.inl hold
    · have htotal := Nat.lt_of_lt_of_le hplace hmade.length_le
      rcases hconnects with ⟨other, hother, hlt, rfl⟩ | ⟨hspec, hconnections⟩
      · exact Or.inr ⟨place, htotal, rfl, other, hother, hlt, rfl⟩
      · exact absurd ⟨hspec, c, hconnections, hback⟩ (hloops place)

def chainingStage : LiveScene where
  scene :=
    { schemas := .ofPairs
        [("curves", ⟨"curves", .ofPairs [("Input", .float 0.0), ("Mask", .float 0.0)], {}⟩)]
      nodes := {}
      roots := [] }
  supply := ⟨fun n => .ofNat (n + 1), 0⟩

def sharingTree : NodeTree :=
  .many
    [((NodeSpec.ofType "curves").attrNode "Mask"
        ((NodeSpec.ofType "curves").fedByTag "mask")).fedByTag "mask",
      (NodeSpec.ofType "curves").tagAs "mask"]

def sharing : Except HostError BuildOutput × LiveScene :=
  sharingTree.build LiveScene.host {} chainingStage

theorem chainingStage_acyclic : chainingStage.scene.Acyclic :=
  Scene.acyclic_of_rank (fun _ => 0) (by decide)

/-- A reference that leads to a later node closes no cycle. -/
theorem sharing_traversable : sharing.2.Traversable Memo ∧ ∀ place, ¬ Build.LoopsBack {}
    chainingStage (sharingTree.described chainingStage.scene.schemas) sharing.2.scene place := by
  have hacyclic : sharing.2.scene.Acyclic :=
    Scene.acyclic_of_rank (fun id => 3 - id.word.toNat) (by decide +kernel)
  have hrun : sharing = (sharing.1, sharing.2) := (Prod.eta sharing).symm
  obtain ⟨hiff, hends⟩ := acyclic_iff_of_build (M := Memo) chainingStage_acyclic (by decide +kernel)
    (by decide +kernel) (by decide +kernel) hrun
  exact ⟨hends hacyclic, hiff.mp hacyclic⟩

/-- Curves that are fed by curves which refer back to them. -/
def loopingTree : NodeTree :=
  .one (((NodeSpec.ofType "curves").tagAs "loop").fedBy ((NodeSpec.ofType "curves").fedByTag "loop"))

def looping : Except HostError BuildOutput × LiveScene :=
  loopingTree.build LiveScene.host {} chainingStage

/-- Curves on top of each other, and others beside them. -/
def stackingTree : NodeTree :=
  .many
    [(NodeSpec.ofType "curves").fedBy ((NodeSpec.ofType "curves").fedBy (NodeSpec.ofType "curves")),
      NodeSpec.ofType "curves"]

def stacking : Except HostError BuildOutput × LiveScene :=
  stackingTree.build LiveScene.host {} chainingStage

/-- From a scene without cycles a tree without plugs can be built into a cycle, and nothing is refused
or left over on the way.  And a cleanup can close a cycle where a build closed none, so that it does
not come to its second pair. -/
theorem looping_not_acyclic :
    (chainingStage.scene.Acyclic ∧ chainingStage.scene.SchemasPlugFree ∧
      chainingStage.NextUnused (loopingTree.described chainingStage.scene.schemas).length ∧
      (∀ spec ∈ loopingTree.described chainingStage.scene.schemas, spec.PlugFree) ∧
      looping.1.toOption.map BuildOutput.isClean = some true ∧ ¬ looping.2.scene.Acyclic ∧
      looping.2.scene.reads.walk? (.ofNat 1) = none) ∧
      (stacking.2.scene.Acyclic ∧ cleanUp? (M := Memo) LiveScene.host {}
        [⟨.ofNat 3, .ofNat 1⟩, ⟨.ofNat 4, .ofNat 1⟩] stacking.2 = none) := by
  have hdown : looping.2.scene.reads.connections (.ofNat 1) "Input" = .ok [⟨.ofNat 2, none⟩] := by
    decide +kernel
  have hup : looping.2.scene.reads.connections (.ofNat 2) "Input" = .ok [⟨.ofNat 1, none⟩] := by
    decide +kernel
  have hends : (cleanUp? (M := Memo) LiveScene.host {}
      [⟨.ofNat 3, .ofNat 1⟩, ⟨.ofNat 4, .ofNat 1⟩] stacking.2).isNone := by decide +kernel
  refine ⟨⟨chainingStage_acyclic, by decide +kernel, by decide +kernel, by decide +kernel,
    by decide +kernel, ?_, by decide +kernel⟩, ?_, Option.isNone_iff_eq_none.mp hends⟩
  · intro hacyclic
    have hfirst := Scene.feeds_of_connections hdown (List.mem_singleton.mpr rfl)
    have hback := Scene.feeds_of_connections hup (List.mem_singleton.mpr rfl)
    exact hacyclic _ (.tail (.single hfirst) hback)
  · exact Scene.acyclic_of_rank (fun id => 4 - id.word.toNat) (by decide +kernel)

end ShaderMigration
