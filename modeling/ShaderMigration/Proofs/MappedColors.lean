import ShaderMigration.Arnold.Sheet
import ShaderMigration.Proofs.CompiledSheets
import ShaderMigration.Proofs.ResultSteps
import ShaderMigration.Proofs.ValueReadBack

namespace ShaderMigration

/-- The types of the lights that have a colour of their own. -/
def Arnold.lightTypes : List String := ["areaLight", "pointLight", "directionalLight"]

/-- The slot after what it stores was written back to it. -/
def Slot.rewritten (slot : Slot) : Slot := ⟨slot.value, slot.value.plug?⟩

namespace Scene

variable {scene scene' before after : Scene} {node light : NodeId} {attr : String}

def TakesBack (scene : Scene) (node : NodeId) (slot : Slot) : Prop :=
  (∀ plug ∈ slot.value.plugs, plug.node ∈ scene.nodes.keys) ∧
    ∀ plug ∈ slot.value.plug?, plug.node ≠ node

instance (scene : Scene) (node : NodeId) (slot : Slot) : Decidable (scene.TakesBack node slot) :=
  inferInstanceAs (Decidable (_ ∧ _))

theorem fit_self (value : Value) (h : value.isConnection = false) :
    fit value value = .ok value := by
  cases value with
  | connection plug => cases h
  | scalar payload => simp [fit, Scalar.coerce?]
  | array items => rfl

/-- Writing back what an attribute stores leaves just that in it. -/
theorem set_stored_eq_ok_iff {slot : Slot} (hslot : scene.slot? node attr = some slot) :
    scene.set node attr slot.value = .ok scene' ↔
      scene.TakesBack node slot ∧ scene' = scene.putSlot node attr slot.rewritten := by
  obtain ⟨value, input⟩ := slot
  cases value with
  | connection plug =>
    rw [set_connection, connect_eq_ok_iff, hslot]
    simp [TakesBack, Slot.rewritten, Value.plugs, Value.plug?, and_assoc]
  | scalar payload =>
    rw [set_eq_ok_iff rfl, checkPlugs_eq_ok_iff, hslot]
    simp [TakesBack, Slot.rewritten, Value.plug?, fit_self (.scalar payload) rfl]
  | array items =>
    rw [set_eq_ok_iff rfl, checkPlugs_eq_ok_iff, hslot]
    simp [TakesBack, Slot.rewritten, Value.plug?, fit_self (.array items) rfl]

/-- What the colour of a light becomes.  It is written back if there is a temperature to compute it
from, even one that is not used. -/
def settled (scene : Scene) (light : NodeId) (color : Slot) : Slot :=
  if (scene.slot? light "aiColorTemperature").isSome ∧ scene.TakesBack light color then
    color.rewritten
  else color

theorem value_settled (scene : Scene) (light : NodeId) (color : Slot) :
    (scene.settled light color).value = color.value := by
  unfold settled
  split <;> rfl

theorem settled_settled (scene : Scene) (light : NodeId) (color : Slot) :
    scene.settled light (scene.settled light color) = scene.settled light color := by
  have htakes : scene.TakesBack light color.rewritten ↔ scene.TakesBack light color := .rfl
  by_cases h : (scene.slot? light "aiColorTemperature").isSome ∧ scene.TakesBack light color
  · rw [settled, settled, if_pos h, if_pos ⟨h.1, htakes.mpr h.2⟩]
    rfl
  · rw [settled, settled, if_neg h, if_neg h]

theorem settled_eq_self_iff {color : Slot} : scene.settled light color = color ↔
    ((scene.slot? light "aiColorTemperature").isSome → scene.TakesBack light color →
      color.input = color.value.plug?) := by
  have hwritten : color.rewritten = color ↔ color.input = color.value.plug? := by
    obtain ⟨value, input⟩ := color
    simp [Slot.rewritten, eq_comm]
  unfold settled
  split
  next h => exact ⟨fun heq _ _ => hwritten.mp heq, fun heq => hwritten.mpr (heq h.1 h.2)⟩
  next h => exact ⟨fun _ htemperature htakes => absurd ⟨htemperature, htakes⟩ h, fun _ => rfl⟩

theorem settled_congr {color : Slot}
    (htemperature : after.slot? light "aiColorTemperature" =
      before.slot? light "aiColorTemperature")
    (hplugs : ∀ plug ∈ color.value.plugs,
      (plug.node ∈ after.nodes.keys ↔ plug.node ∈ before.nodes.keys)) :
    after.settled light color = before.settled light color := by
  have htakes : after.TakesBack light color ↔ before.TakesBack light color :=
    and_congr_left' (forall₂_congr hplugs)
  simp only [settled, htemperature, htakes]

/-- A light that has a colour of its own and stores that it uses no colour temperature. -/
structure PlainLight (scene : Scene) (light : NodeId) : Prop where
  type : ∃ found, scene.nodes.find? light = some found ∧ found.type ∈ Arnold.lightTypes
  flag : ∃ slot, scene.slot? light "aiUseColorTemperature" = some slot ∧
    slot.value.asTruth = .ok false

end Scene

namespace LiveScene

variable {live : LiveScene} {node : NodeId} {attr : String}

theorem slot?_set_stored {slot : Slot} (hslot : live.scene.slot? node attr = some slot) :
    (host.set node attr slot.value live).2.scene.slot? node attr =
      some (if live.scene.TakesBack node slot then slot.rewritten else slot) := by
  have hset : host.set node attr slot.value live =
      edit () (fun scene => scene.set node attr slot.value) live := rfl
  rw [hset]
  rcases edit_cases () (fun scene => scene.set node attr slot.value) live with
    ⟨scene', hok, heq⟩ | ⟨cause, herror, heq⟩
  · obtain ⟨htakes, rfl⟩ := (Scene.set_stored_eq_ok_iff hslot).mp hok
    rw [heq, if_pos htakes]
    simp [Scene.slot?_putSlot, hslot]
  · have hnot : ¬ live.scene.TakesBack node slot := by
      intro htakes
      rw [(Scene.set_stored_eq_ok_iff hslot).mpr ⟨htakes, rfl⟩] at herror
      cases herror
    rw [heq, if_neg hnot, hslot]

end LiveScene

namespace Arnold

def colorInputs : List String := ["aiColorTemperature", "aiUseColorTemperature", "color"]

/-- A rule that writes to the node itself, and of what the colour is computed from to the colour
only. -/
structure ColorsInPlace (rule : Rule LiveScene) : Prop where
  target : rule.target = none
  inPlace : rule.inPlace = true
  stepless : rule.Stepless
  entries : ∃ first rest,
    rule.attributes.entries = first ++
      ("aiColorTemperature", .computed (.ofPairs [("color", .binary lightColor)])) :: rest ∧
    (∀ pairing ∈ pairingsOf first, pairing.target ∉ colorInputs) ∧
      ∀ pairing ∈ pairingsOf rest, pairing.target ∉ colorInputs

/-- The rules from Arnold are for different types, so each is found under its type. -/
theorem find?_toRedshift {transcoder : Option Texture.Transcoder} {type : String}
    {rule : Rule LiveScene} (h : (type, rule) ∈
      [("areaLight", light true), ("pointLight", (light true).rename "aiRadius" "lightRadius"),
        ("directionalLight", (light false).rename "aiAngle" "lightAngle")]) :
    (toRedshift transcoder).find? type = some rule := by
  refine Table.mem_entries_iff.mp ?_
  change (type, rule) ∈ Entries.ofPairs _
  rw [Entries.ofPairs_of_nodup (by cases transcoder <;> simp [textureRules])]
  refine List.mem_append_right _ ?_
  simp only [List.mem_cons, List.not_mem_nil, or_false] at h ⊢
  tauto

theorem colorsInPlace_of_lightTypes (transcoder : Option Texture.Transcoder) {type : String}
    (htype : type ∈ lightTypes) :
    ∃ rule, (toRedshift transcoder).find? type = some rule ∧ ColorsInPlace rule := by
  simp only [lightTypes, List.mem_cons, List.not_mem_nil, or_false] at htype
  rcases htype with rfl | rfl | rfl
  · exact ⟨light true, find?_toRedshift (by simp), rfl, rfl, ⟨rfl, rfl⟩,
      (light true : Rule LiveScene).attributes.entries.take 3, [], rfl, by decide, by decide⟩
  · exact ⟨(light true).rename "aiRadius" "lightRadius", find?_toRedshift (by simp), rfl, rfl,
      ⟨rfl, rfl⟩, (light true : Rule LiveScene).attributes.entries.take 3,
      [("aiRadius", .rename "lightRadius")], rfl, by decide, by decide⟩
  · exact ⟨(light false).rename "aiAngle" "lightAngle", find?_toRedshift (by simp), rfl, rfl,
      ⟨rfl, rfl⟩, (light false : Rule LiveScene).attributes.entries.take 2,
      [("aiAngle", .rename "lightAngle")], rfl, by decide, by decide⟩

/-- Forwarding an input writes to the new node only. -/
theorem writesBeside_forwardInput (old : NodeId) (attr : String) (new : NodeId)
    (target : String) (live : LiveScene) :
    live.WritesBeside new [] (forwardInput LiveScene.host old attr new target live).2 := by
  have hreads : LiveScene.host.reads live = live.scene.reads := rfl
  unfold forwardInput
  dsimp only
  rw [hreads]
  cases hplugs : live.scene.reads.connections old attr with
  | error cause => exact .refl new [] live
  | ok plugs =>
    cases plugs with
    | cons plug rest => exact LiveScene.writesBeside_connect plug List.not_mem_nil
    | nil =>
      cases hstored : live.scene.reads.getStatic old attr with
      | error cause => exact .refl new [] live
      | ok value => exact LiveScene.writesBeside_set value List.not_mem_nil

theorem writesResult_toRedshift (transcoder : Option Texture.Transcoder) :
    ∀ entry ∈ (toRedshift transcoder).entries, entry.2.WritesResult := by
  intro entry he
  rcases List.mem_append.mp (Entries.mem_of_mem_ofPairs he) with he | he
  · cases transcoder with
    | none => exact absurd he List.not_mem_nil
    | some transcoder =>
      rcases List.mem_pair.mp he with rfl | rfl
      · exact .of_stepless ⟨rfl, rfl⟩
      · exact .of_stepless ⟨rfl, rfl⟩
  · simp only [List.mem_cons, List.not_mem_nil, or_false] at he
    rcases he with rfl | rfl | he
    · exact .of_stepless ⟨rfl, rfl⟩
    · refine ⟨rfl, ?_⟩
      intro step hstep old new live
      obtain rfl := Option.some.inj hstep
      exact writesBeside_forwardInput old "metalness" new "refl_metalness" live
    · rcases he with rfl | rfl | rfl | rfl | rfl | rfl | rfl | rfl | rfl | rfl <;>
        exact .of_stepless ⟨rfl, rfl⟩

section Mapping

variable (live : LiveScene) (light : NodeId)
  (hflag : ∃ slot, live.scene.slot? light "aiUseColorTemperature" = some slot ∧
  slot.value.asTruth = .ok false)
include hflag

theorem lightColor_eq (temperature : Value) :
    lightColor temperature ⟨live.scene.reads, light⟩ =
      (live.scene.reads.getStatic light "color").mapError convertError := by
  obtain ⟨flag, hslot, htruth⟩ := hflag
  have hstored : live.scene.reads.getStatic light "aiUseColorTemperature" = .ok flag.value :=
    congrArg (Except.map Slot.value) (Scene.slot_eq_ok_iff.mpr hslot)
  unfold lightColor NodeView.getStatic
  rw [hstored]
  simp [bind, Except.bind, Except.mapError, htruth]

/-- The pair of temperature and colour writes the stored colour back. -/
theorem slot?_write_color :
    (Mapping.write LiveScene.host light light
        (Mapping.reading live.scene.reads light "aiColorTemperature")
        ⟨"aiColorTemperature", "color", some (.binary lightColor)⟩ live).2.scene.slot? light
          "color" =
      (live.scene.slot? light "color").map (live.scene.settled light) := by
  have hread : ∀ attr, live.scene.reads.getStatic light attr =
      (live.scene.slot light attr).map Slot.value := fun _ => rfl
  have hreads : LiveScene.host.reads live = live.scene.reads := rfl
  simp only [Mapping.write, Mapping.reading, Mapping.computeTarget, Mapping.computeValue, hreads,
    Converter.evaluate, lightColor_eq live light hflag, hread, Scene.slot]
  cases htemperature : live.scene.slot? light "aiColorTemperature" with
  | none =>
    cases hcolor : live.scene.slot? light "color" with
    | none => simp [Except.map, hcolor]
    | some color => simp [Except.map, hcolor, Scene.settled, htemperature]
  | some temperature =>
    cases hcolor : live.scene.slot? light "color" with
    | none => simp [Except.map, Except.mapError, hcolor]
    | some color =>
      simp only [Except.map, Except.mapError, Option.map_some, Scene.settled, htemperature,
        Option.isSome_some, true_and]
      exact LiveScene.slot?_set_stored hcolor

/-- A rule that colours in place does to the colour what writing it back does, and nothing to what it
is computed from. -/
theorem mapAttributes_color {rule : Rule LiveScene} (hrule : ColorsInPlace rule) :
    ∃ scene, (Mapping.mapAttributes LiveScene.host rule light light live).2 = { live with scene } ∧
      live.scene.Spares light ["aiColorTemperature", "aiUseColorTemperature"] scene ∧
        scene.slot? light "color" =
          (live.scene.slot? light "color").map (live.scene.settled light) := by
  obtain ⟨first, rest, hentries, hfirst, hrest⟩ := hrule.entries
  rw [Mapping.mapAttributes_eq_tally]
  unfold Mapping.attempts
  rw [hentries]
  dsimp only
  rw [Mapping.tryRules_append, Mapping.tryRules_cons]
  obtain ⟨scene, hbefore, hspares⟩ :=
    Mapping.writesBeside_tryRules light light hfirst live
  rw [hbefore]
  rw [← hspares.slots "aiUseColorTemperature" (by decide)] at hflag
  have hcolor := slot?_write_color { live with scene } light hflag
  have hbeside : "color" ∉ ["aiColorTemperature", "aiUseColorTemperature"] := by decide
  obtain ⟨scene', hwrite, hspares'⟩ := Mapping.writesBeside_write light light
    (Mapping.reading scene.reads light "aiColorTemperature")
    ⟨"aiColorTemperature", "color", some (.binary lightColor)⟩ hbeside { live with scene }
  obtain ⟨scene'', hafter, hspares''⟩ :=
    Mapping.writesBeside_tryRules light light hrest { live with scene := scene' }
  rw [hwrite] at hcolor
  refine ⟨scene'', ?_, ?_, ?_⟩
  · rw [← hafter]
    exact congrArg
      (fun later => (Mapping.tryRules LiveScene.host light light rest later).2) hwrite
  · have hsubset : ∀ name ∈ ["aiColorTemperature", "aiUseColorTemperature"],
        name ∈ colorInputs := by decide
    exact ((hspares.mono hsubset).trans hspares').trans (hspares''.mono hsubset)
  · rw [hspares''.slots "color" (by decide), hcolor, hspares.slots "color" (by decide)]
    refine Option.map_congr fun color _ => Scene.settled_congr ?_ fun plug _ => ?_
    · exact hspares.slots "aiColorTemperature" (by decide)
    · rw [hspares.changes.keys]

end Mapping

end Arnold

end ShaderMigration
