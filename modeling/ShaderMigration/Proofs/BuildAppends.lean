import ShaderMigration.Proofs.BuildOrigins
import Mathlib.Data.List.TakeWhile

namespace ShaderMigration

namespace Build

/-- Nodes of these descriptions were added, with nothing else changed, and the references that wait
are theirs. -/
structure Appended (start : LiveScene) (specs : List NodeSpec) (building : Building LiveScene) :
    Prop where
  registered : ∀ spec ∈ specs, start.scene.schemas.contains spec.type = true
  added : ∃ made, made.map Prod.snd = specs.map NodeSpec.type ∧
    building.output.created = made.map Prod.fst ∧ start.Extends [] made building.state
  waiting : ∀ entry ∈ building.waiting, entry.1 ∉ start.scene.nodes.keys

namespace Appended

variable {options : BuildOptions} {start : LiveScene} {specs : List NodeSpec}
  {before after : Building LiveScene} {node : NodeId}

theorem initial (start : LiveScene) : Appended start [] { state := start } where
  registered := by simp
  added := ⟨[], rfl, rfl, .refl start⟩
  waiting := by simp

theorem schemas (h : Appended start specs before) :
    before.state.scene.schemas = start.scene.schemas := by
  obtain ⟨_, _, _, hextends⟩ := h.added
  exact hextends.schemas

theorem of_touched (h : Appended start specs before) (hnode : node ∉ start.scene.nodes.keys)
    (hextends : before.state.Extends [node] [] after.state)
    (hcreated : after.output.created = before.output.created)
    (hwaiting : ∀ entry ∈ after.waiting, entry ∈ before.waiting ∨ entry.1 = node) :
    Appended start specs after := by
  obtain ⟨made, htypes, hmade, hbefore⟩ := h.added
  refine ⟨h.registered, ⟨made, htypes, hcreated.trans hmade, ?_⟩, fun entry he => ?_⟩
  · have hafter := hbefore.trans hextends
    rw [List.append_nil] at hafter
    refine hafter.mono fun id hid htouched => ?_
    rw [List.nil_append, List.mem_singleton] at htouched
    exact absurd (htouched ▸ hid) hnode
  · rcases hwaiting entry he with hold | heq
    · exact h.waiting entry hold
    · exact heq ▸ hnode

theorem order (h : Appended start specs before) (hnode : node ∉ start.scene.nodes.keys)
    {order : Order} (hrun : order.run node before = (.ok (), after)) :
    Appended start specs after := by
  refine h.of_touched hnode (Order.extends_run hrun) ?_ fun entry he => Or.inl ?_
  · rcases Order.run_cases hrun with ⟨_, _, _, _, _, _, rfl⟩ | ⟨_, _, rfl⟩ <;> rfl
  · exact (Order.sameRecord_run hrun).waiting ▸ he

theorem ask (h : Appended start specs before) {ids : Nat → NodeId}
    (hnode : node ∉ start.scene.nodes.keys) {request : Request}
    (hrun : request.run options ids node before = (.ok (), after)) :
    Appended start specs after := by
  rcases Request.run_cases hrun with ⟨order, _, horder⟩ | ⟨tag, _, _, hwait⟩
  · exact h.order hnode horder
  · rcases wait_cases hwait with ⟨_, rfl⟩ | ⟨_, rfl⟩
    · refine h.of_touched hnode (Request.extends_run hrun) rfl fun entry he => ?_
      rcases List.mem_append.mp he with hold | hnew
      · exact Or.inl hold
      · exact Or.inr (congrArg Prod.fst (List.mem_singleton.mp hnew))
    · exact h.of_touched hnode (Request.extends_run hrun) rfl fun _ he => Or.inl he

theorem tag (h : Appended start specs before) (hnode : node ∉ start.scene.nodes.keys)
    {label : String} (hrun : tagNode LiveScene.host options node label before = (.ok (), after)) :
    Appended start specs after := by
  have hsame : after.output.created = before.output.created ∧ after.waiting = before.waiting := by
    unfold tagNode at hrun
    obtain ⟨_, mid, hattempt, hlast⟩ := bind_eq_ok_iff.mp hrun
    have hedit : attempt node options.tagKey (LiveScene.edit () fun scene =>
        scene.setTag node options.tagKey label) before = (.ok (), mid) := hattempt
    have hmid : mid.output.created = before.output.created ∧ mid.waiting = before.waiting := by
      rcases attempt_cases hedit with ⟨_, _, rfl⟩ | ⟨_, _, rfl⟩ <;> exact ⟨rfl, rfl⟩
    rw [modify_eq_ok_iff] at hlast
    subst hlast
    split <;> exact hmid
  exact h.of_touched hnode (extends_tagNode hrun) hsame.1 fun _ he => Or.inl (hsame.2 ▸ he)

theorem create (h : Appended start specs before) {spec : NodeSpec}
    (hunused : start.NextUnused (specs.length + 1))
    (hrun : create LiveScene.host spec.type before = (.ok node, after)) :
    Appended start (specs ++ [spec]) after := by
  obtain ⟨made, htypes, hmade, hbefore⟩ := h.added
  have hlength : made.length = specs.length := by
    rw [← List.length_map (f := Prod.snd), htypes, List.length_map]
  obtain ⟨hstretch, schema, hschema⟩ : Stretch {} [] { made := [(node, spec.type)] } before after ∧
      ∃ schema, before.state.scene.schemas.find? spec.type = some schema :=
    stretch_create (hbefore.nextUnused (hlength ▸ hunused)) hrun
  refine ⟨fun other hother => ?_, ⟨made ++ [(node, spec.type)], ?_, ?_, ?_⟩, ?_⟩
  · rcases List.mem_append.mp hother with hold | hnew
    · exact h.registered other hold
    · rw [List.mem_singleton.mp hnew, ← h.schemas, Table.contains, hschema]
      rfl
  · simp [htypes]
  · rw [hstretch.created, hmade, List.map_append]
  · exact hbefore.trans hstretch.state
  · have hwaiting := hstretch.waiting
    rw [List.append_nil] at hwaiting
    exact hwaiting ▸ h.waiting

/-- Every move keeps it, since a move is about a node that was added before. -/
theorem move (h : Appended start specs before) {move : Move} (hfits : move.Fits specs)
    (hunused : start.NextUnused (specs.length + move.makes.length))
    (hrun : move.run options start.idAt before = (.ok (), after)) :
    Appended start (specs ++ move.makes) after := by
  have hnew : ∀ place, place < specs.length → start.idAt place ∉ start.scene.nodes.keys :=
    fun place hplace => hunused.absent place (by omega)
  cases move with
  | create place spec =>
    obtain ⟨node, hcreate⟩ := Move.run_create hrun
    exact h.create hunused hcreate
  | ask place request =>
    have hmade : specs ++ (Move.ask place request).makes = specs := List.append_nil specs
    rw [hmade]
    exact h.ask (hnew place hfits.1) hrun
  | tag place label =>
    have hmade : specs ++ (Move.tag place label).makes = specs := List.append_nil specs
    rw [hmade]
    exact h.tag (hnew place hfits) hrun
  | root place =>
    have hmade : specs ++ (Move.root place).makes = specs := List.append_nil specs
    obtain rfl := modify_eq_ok_iff.mp hrun
    rw [hmade]
    exact ⟨h.registered, h.added, h.waiting⟩

theorem runMoves (h : Appended start specs before) {moves : List Move}
    (hordered : Ordered specs moves)
    (hunused : start.NextUnused (specs.length + (makes moves).length))
    (hrun : runMoves options start.idAt moves before = (.ok (), after)) :
    Appended start (specs ++ makes moves) after := by
  induction moves generalizing specs before with
  | nil =>
    obtain ⟨-, rfl⟩ := pure_eq_ok_iff.mp hrun
    exact (List.append_nil specs).symm ▸ h
  | cons move rest ih =>
    obtain ⟨_, mid, hmove, hrest⟩ := bind_eq_ok_iff.mp hrun
    rw [makes_cons, List.length_append] at hunused
    have hmid := h.move hordered.1 (hunused.mono (by omega)) hmove
    rw [makes_cons, ← List.append_assoc]
    refine ih hmid hordered.2 (hunused.mono ?_) hrest
    rw [List.length_append]
    omega

theorem resolveWaiting (h : Appended start specs before) {references : List (NodeId × String)}
    (hreferences : ∀ entry ∈ references, entry.1 ∉ start.scene.nodes.keys)
    (hrun : resolveWaiting LiveScene.host options references before = (.ok (), after)) :
    Appended start specs after := by
  induction references generalizing before with
  | nil =>
    obtain ⟨-, rfl⟩ := pure_eq_ok_iff.mp hrun
    exact h
  | cons entry rest ih =>
    obtain ⟨_, mid, hfirst, hrest⟩ := bind_eq_ok_iff.mp hrun
    rw [List.forall_mem_cons] at hreferences
    refine ih ?_ hreferences.2 hrest
    unfold feedByTag at hfirst
    split at hfirst
    next source _ =>
      have hlink : (Order.link options.primaryInput options.primaryInput source).run entry.1
          before = (.ok (), mid) := hfirst
      exact h.order hreferences.1 hlink
    next =>
      obtain rfl := modify_eq_ok_iff.mp hfirst
      exact ⟨h.registered, h.added, h.waiting⟩

end Appended

section Runs

variable {tree : NodeTree} {options : BuildOptions} {live : LiveScene} {final : Building LiveScene}
  (hunused : live.NextUnused (tree.described live.scene.schemas).length)
include hunused

theorem appended_of_buildAll
    (hrun : buildAll LiveScene.host options tree.roots { state := live } = (.ok (), final)) :
    Appended live (tree.described live.scene.schemas) final := by
  unfold NodeTree.described at *
  have hmakes := makes_treeScript options tree.roots live
  obtain ⟨mid, hroots, hwaiting⟩ := buildAll_eq_ok_iff.mp hrun
  rw [buildRoots_eq_runMoves hunused] at hroots
  have hmid := (Appended.initial live).runMoves (laid_treeScript options tree.roots live).ordered
    (by simpa [hmakes] using hunused) hroots
  rw [List.nil_append, hmakes] at hmid
  exact hmid.resolveWaiting hmid.waiting hwaiting

/-- A build that fails has come to a description of a type that is not registered. -/
theorem appended_of_buildAll_error {cause : HostError}
    (hrun : buildAll LiveScene.host options tree.roots { state := live } = (.error cause, final)) :
    ∃ done spec rest, tree.described live.scene.schemas = done ++ spec :: rest ∧
      Appended live done final ∧ live.scene.schemas.contains spec.type = false ∧
        cause = .creation spec.type := by
  unfold NodeTree.described at *
  have hmakes := makes_treeScript options tree.roots live
  have hordered := (laid_treeScript options tree.roots live).ordered
  have hroots := buildRoots_error_of_buildAll hrun
  rw [buildRoots_eq_runMoves hunused] at hroots
  obtain ⟨done, place, spec, rest, hsplit, hdone, hschema, hcause⟩ := runMoves_error hroots
  rw [hsplit, makes_append, makes_cons] at hmakes
  have hsome : live.NextUnused (makes done).length := by
    refine hunused.mono ?_
    rw [← hmakes, List.length_append]
    omega
  rw [hsplit, ordered_append] at hordered
  have hfinal := (Appended.initial live).runMoves hordered.1 (by simpa using hsome) hdone
  rw [List.nil_append] at hfinal
  exact ⟨makes done, spec, makes rest, hmakes.symm, hfinal, hfinal.schemas ▸ hschema, hcause⟩

end Runs

end Build

/-- A build ends with the first description of a type that is not registered, and only there; all
descriptions before it, or all of them if there is none, have become nodes at the end of the scene.
Older nodes are not touched in either case. -/
theorem build_appends {tree : NodeTree} {options : BuildOptions} {live after : LiveScene}
    {result : Except HostError BuildOutput}
    (hunused : live.NextUnused (tree.described live.scene.schemas).length)
    (hrun : tree.build LiveScene.host options live = (result, after)) :
    let specs := tree.described live.scene.schemas
    let registered := fun spec : NodeSpec => live.scene.schemas.contains spec.type
    ∃ made, made.map Prod.snd = (specs.takeWhile registered).map NodeSpec.type ∧
      live.Extends [] made after ∧
      match specs.find? fun spec => !registered spec with
      | some spec => result = .error (.creation spec.type)
      | none => ∃ output, result = .ok output ∧ output.created = made.map Prod.fst := by
  intro specs registered
  have hnone : ∀ {done final}, Build.Appended live done final →
      (done.find? fun spec => !registered spec) = none := by
    intro done final h
    rw [List.find?_eq_none]
    intro spec hspec
    simp [registered, h.registered spec hspec]
  unfold NodeTree.build at hrun
  split at hrun
  next final hall =>
    obtain ⟨hresult, rfl⟩ := Prod.mk.inj hrun
    have hfinal := Build.appended_of_buildAll hunused hall
    obtain ⟨made, htypes, hcreated, hextends⟩ := hfinal.added
    have hspecs : specs.takeWhile registered = specs :=
      List.takeWhile_eq_self_iff.mpr hfinal.registered
    rw [hnone hfinal, hspecs]
    exact ⟨made, htypes, hextends, final.output, hresult.symm, hcreated⟩
  next cause final hall =>
    obtain ⟨hresult, rfl⟩ := Prod.mk.inj hrun
    obtain ⟨done, spec, rest, hsplit, hfinal, hstop, hcause⟩ :=
      Build.appended_of_buildAll_error hunused hall
    have hspecs : specs = done ++ spec :: rest := hsplit
    obtain ⟨made, htypes, _, hextends⟩ := hfinal.added
    have hbefore : specs.takeWhile registered = done := by
      rw [hspecs, List.takeWhile_append_of_pos hfinal.registered,
        List.takeWhile_cons_of_neg (by simp [hstop]), List.append_nil]
    have hfirst : (specs.find? fun spec => !registered spec) = some spec := by
      rw [hspecs, List.find?_append, hnone hfinal, Option.none_or,
        List.find?_cons_of_pos (by simp [registered, hstop])]
    rw [hbefore, hfirst]
    exact ⟨made, htypes, hextends, by rw [← hresult, hcause]⟩

/-- A stage on which plates can be merged, and a plate that others may refer to. -/
def platedStage : LiveScene where
  scene :=
    { schemas := .ofPairs
        [("merge", ⟨"merge", .ofPairs [("Input", .float 0.0), ("Mask", .float 0.0)],
          .ofPairs [("mask", "Mask")]⟩)]
      nodes := .ofPairs
        [(.ofNat 1, ⟨.ofNat 1, "plate", none, "plate1", {}, .ofPairs [("ref_id", "plate")]⟩)]
      roots := [.ofNat 1] }
  supply := ⟨fun n => .ofNat (n + 2), 0⟩

/-- A merge over the plate with a merge for its mask, and one over a blur, which nobody declared.
What goes into an input that merges do not have is of no declared type either, but is not built. -/
def mergingTree : NodeTree :=
  .many
    [⟨"merge", [("Mask", .spec (.ofType "merge"))], [("matte", .spec (.ofType "glow"))], none,
        .tagged "plate"⟩,
      (NodeSpec.ofType "merge").fedBy ((NodeSpec.ofType "blur").fedBy (NodeSpec.ofType "merge")),
      NodeSpec.ofType "merge"]

def merging : Except HostError BuildOutput × LiveScene :=
  mergingTree.build LiveScene.host { tagScope := .document } platedStage

/-- Two merges and the mask of the first are there when the build ends at the blur. -/
theorem merging_appends :
    merging.1 = .error (.creation "blur") ∧ ∃ made,
      made.map Prod.snd = ["merge", "merge", "merge"] ∧ platedStage.Extends [] made merging.2 ∧
      merging.2.scene.reads.connections (.ofNat 2) "Input" = .ok [⟨.ofNat 1, none⟩] := by
  have hrun : merging = (merging.1, merging.2) := (Prod.eta merging).symm
  obtain ⟨made, htypes, hextends, hresult⟩ := build_appends (by decide +kernel) hrun
  exact ⟨hresult, made, htypes, hextends, by decide +kernel⟩

end ShaderMigration
