import ShaderMigration.Proofs.ConversionStep
import ShaderMigration.Proofs.MappingRuns

namespace ShaderMigration

/-- What a slot holds after it took a value.  A connection hides what is stored, anything else is
stored and cuts the connection; a scalar is converted to the kind of the one that was stored. -/
inductive Slot.Takes (held : Slot) : Value → Slot → Prop
  | connection (plug : Plug) (stored : Value) : Takes held (.connection plug) ⟨stored, some plug⟩
  | scalar {old payload fitted : Scalar} (hheld : held.value = .scalar old)
      (hfitted : payload.coerce? old.kind = some fitted) :
      Takes held (.scalar payload) ⟨.scalar fitted, none⟩
  | array {old items : List Value} (hheld : held.value = .array old) :
      Takes held (.array items) ⟨.array items, none⟩

/-- Only the kind of what is stored matters. -/
theorem Slot.Takes.of_shape {held held' slot : Slot} {value : Value} (h : held.Takes value slot)
    (hshape : held'.value.shape = held.value.shape) : held'.Takes value slot := by
  cases h with
  | connection plug stored => exact .connection plug stored
  | @scalar old payload fitted hheld hfitted =>
    rw [hheld] at hshape
    cases hstored : held'.value with
    | connection plug => simp [hstored, Value.shape] at hshape
    | array items => simp [hstored, Value.shape] at hshape
    | scalar other =>
      have hkind : other.kind = old.kind := by simpa [hstored, Value.shape] using hshape
      exact .scalar hstored (hkind ▸ hfitted)
  | @array old items hheld =>
    rw [hheld] at hshape
    cases hstored : held'.value with
    | connection plug => simp [hstored, Value.shape] at hshape
    | scalar payload => simp [hstored, Value.shape] at hshape
    | array other => exact .array hstored

namespace Scene

variable {scene scene' : Scene} {node : NodeId} {attr : String} {value : Value}

theorem takes_of_fit {held : Slot} {fitted : Value} (h : fit held.value value = .ok fitted) :
    held.Takes value ⟨fitted, none⟩ := by
  cases hstored : held.value with
  | connection plug => rw [hstored] at h; cases h
  | scalar old =>
    cases value with
    | connection plug => rw [hstored] at h; cases h
    | array items => rw [hstored] at h; cases h
    | scalar payload =>
      cases hfitted : payload.coerce? old.kind with
      | none => simp [fit, hstored, hfitted] at h
      | some result =>
        obtain rfl : .scalar result = fitted := by simpa [fit, hstored, hfitted] using h
        exact .scalar hstored hfitted
  | array old =>
    cases value with
    | connection plug => rw [hstored] at h; cases h
    | scalar payload => rw [hstored] at h; cases h
    | array items =>
      obtain rfl : .array items = fitted := by simpa [fit, hstored] using h
      exact .array hstored

theorem slot?_set (h : scene.set node attr value = .ok scene') :
    ∃ held slot, scene.slot? node attr = some held ∧ held.Takes value slot ∧
      ∀ other name, scene'.slot? other name =
        if other = node ∧ name = attr then some slot else scene.slot? other name := by
  have hput : ∀ {held : Slot} (slot : Slot), scene.slot? node attr = some held →
      ∀ other name, (scene.putSlot node attr slot).slot? other name =
        if other = node ∧ name = attr then some slot else scene.slot? other name := by
    intro held slot hheld other name
    rw [slot?_putSlot, hheld, Option.map_some]
  cases hvalue : value.isConnection with
  | true =>
    cases value with
    | scalar payload => cases hvalue
    | array items => cases hvalue
    | connection plug =>
      rw [set_connection] at h
      obtain ⟨_, _, held, hheld, rfl⟩ := connect_eq_ok_iff.mp h
      exact ⟨held, _, hheld, .connection plug held.value, hput _ hheld⟩
  | false =>
    obtain ⟨_, held, fitted, hheld, hfit, rfl⟩ := (set_eq_ok_iff hvalue).mp h
    exact ⟨held, _, hheld, takes_of_fit hfit, hput _ hheld⟩

end Scene

namespace Mapping

variable {old new : NodeId} {start scene scene' : Scene} {pairings : List Pairing}

theorem written_concat (pairing : Pairing) :
    written start old new (pairings ++ [pairing]) scene =
      (takes? start (written start old new pairings scene) old new pairing).getD
        (written start old new pairings scene) := by
  rw [written, List.foldl_append]
  rfl

theorem written_append (others : List Pairing) :
    written start old new (pairings ++ others) scene =
      written start old new others (written start old new pairings scene) := by
  rw [written, List.foldl_append]
  rfl

theorem slot?_written_of_ne {other : NodeId} (hne : other ≠ new) (name : String) :
    (written start old new pairings scene).slot? other name = scene.slot? other name := by
  induction pairings using List.reverseRecOn with
  | nil => rfl
  | append_singleton pairings pairing ih =>
    rw [written_concat]
    cases htakes : takes? start (written start old new pairings scene) old new pairing with
    | none => exact ih
    | some later =>
      obtain ⟨value, _, hset⟩ := takes?_eq_some_iff.mp htakes
      obtain ⟨_, _, _, _, hslot⟩ := Scene.slot?_set hset
      rw [Option.getD_some, hslot, if_neg fun h => hne h.1, ih]

def last? (writes : Pairing → Bool) (target : String) (pairings : List Pairing) : Option Pairing :=
  (pairings.filter fun pairing => pairing.target == target && writes pairing).getLast?

theorem last?_concat (writes : Pairing → Bool) (target : String) (pairing : Pairing) :
    last? writes target (pairings ++ [pairing]) =
      if pairing.target = target ∧ writes pairing = true then some pairing
      else last? writes target pairings := by
  unfold last?
  rw [List.filter_append]
  split
  next h => simp [h]
  next h =>
    have hfalse : (pairing.target == target && writes pairing) = false := by
      simpa [Bool.and_eq_false_iff, or_iff_not_imp_left] using h
    simp [hfalse]

/-- A slot of the new node after the pairs were tried: the last one accepted decides. -/
theorem slot?_written (target : String) :
    match last? (accepted start old new) target pairings with
    | none => (written start old new pairings start).slot? new target = start.slot? new target
    | some pairing => ∃ value held slot,
        pairing.offered? (start.slot? old pairing.source) = some value ∧
          start.slot? new target = some held ∧
          (written start old new pairings start).slot? new target = some slot ∧
          held.Takes value slot := by
  induction pairings using List.reverseRecOn with
  | nil => rfl
  | append_singleton pairings pairing ih =>
    have hshapes : start.SameShapes (written start old new pairings start) :=
      sameShapes_written pairings
    have haccepted := isSome_takes? old new pairing hshapes
    rw [last?_concat, written_concat]
    -- the source and the shape of the target are still as at the start, so the pair is accepted alike
    cases htakes : takes? start (written start old new pairings start) old new pairing with
    | none =>
      rw [htakes] at haccepted
      rw [if_neg (by simp [← haccepted])]
      exact ih
    | some later =>
      rw [htakes] at haccepted
      obtain ⟨value, hoffered, hset⟩ := takes?_eq_some_iff.mp htakes
      obtain ⟨before, slot, hbefore, htaken, hslot⟩ := Scene.slot?_set hset
      by_cases htarget : pairing.target = target
      · subst htarget
        obtain ⟨held, hheld, hshape⟩ := Option.map_eq_some_iff.mp
          ((hshapes.shapes new pairing.target).symm.trans (congrArg _ hbefore))
        rw [if_pos ⟨rfl, haccepted.symm⟩]
        refine ⟨value, held, slot, hoffered, hheld, ?_, htaken.of_shape hshape⟩
        rw [Option.getD_some, hslot, if_pos ⟨rfl, rfl⟩]
      · rw [if_neg fun h => htarget h.1, Option.getD_some, hslot,
          if_neg fun h => htarget h.2.symm]
        exact ih

theorem reading_congr {attr : String} (h : scene.slot? old attr = scene'.slot? old attr) :
    reading scene.reads old attr = reading scene'.reads old attr := by
  have hstored : ∀ scene : Scene,
      scene.reads.getStatic old attr = (scene.slot old attr).map Slot.value := fun _ => rfl
  simp only [reading, readSource_eq, hstored, Scene.slot, h]

/-- Where the old node is another one, all sources are read as they were at the start. -/
theorem tryRules_eq (hne : old ≠ new) {rules : List (String × AttributeRule)}
    (harity : ∀ pairing ∈ pairingsOf rules, pairing.arity ≤ 1) (live : LiveScene)
    (hshapes : start.SameShapes live.scene)
    (hold : ∀ attr, live.scene.slot? old attr = start.slot? old attr) :
    let run := tryRules LiveScene.host old new rules live
    run.2 = { live with scene := written start old new (pairingsOf rules) live.scene } ∧
      ∀ attempt ∈ run.1, attempt.succeeded = accepted start old new attempt.pairing := by
  induction rules generalizing live with
  | nil => exact ⟨rfl, fun _ h => absurd h List.not_mem_nil⟩
  | cons entry rest ih =>
    rw [pairingsOf_cons, List.forall_mem_append] at harity
    obtain ⟨hhere, hlater⟩ := harity
    have hread :
        reading (LiveScene.host.reads live) old entry.1 = reading start.reads old entry.1 :=
      reading_congr (hold entry.1)
    obtain ⟨hstate, hall⟩ := tryPairings_eq start old new
      (fun pairing h => source_of_mem_pairings h) hhere live hshapes
    obtain ⟨hstate', hall'⟩ := ih hlater
      { live with scene := written start old new (entry.2.pairings entry.1) live.scene }
      (hshapes.trans (sameShapes_written _))
      (fun attr => (slot?_written_of_ne hne attr).trans (hold attr))
    rw [tryRules_cons, hread]
    simp only [hstate]
    refine ⟨by rw [hstate', pairingsOf_cons, written_append], ?_⟩
    exact List.forall_mem_append.mpr ⟨hall, hall'⟩

theorem last?_congr {writes writes' : Pairing → Bool}
    (h : ∀ pairing ∈ pairings, writes pairing = writes' pairing) (target : String) :
    last? writes target pairings = last? writes' target pairings := by
  unfold last?
  exact congrArg _ (List.filter_congr fun pairing hpairing => by rw [h pairing hpairing])

end Mapping

/-- The pair that decides an attribute: the last one for it that did not fail. -/
def Rule.deciding? {σ : Type} (rule : Rule σ) (outcome : Mapping.Outcome) (target : String) :
    Option Pairing :=
  Mapping.last? (fun pairing => outcome.wrote pairing.source pairing.target) target rule.pairings

/-- A mapping onto another node changes nothing else.  A slot holds what the last pair for it that
did not fail makes of the source, as that was before the mapping; without such a pair it is as
before. -/
theorem mapAttributes_slots {rule : Rule LiveScene} {old new : NodeId} {live after : LiveScene}
    {outcome : Mapping.Outcome} (hne : old ≠ new)
    (harity : ∀ pairing ∈ rule.pairings, pairing.arity ≤ 1)
    (hrun : Mapping.mapAttributes LiveScene.host rule old new live = (outcome, after)) :
    (∃ scene, after = { live with scene } ∧ live.scene.ChangesOnly new scene) ∧
      ∀ attr, match rule.deciding? outcome attr with
        | none => after.scene.slot? new attr = live.scene.slot? new attr
        | some pairing => ∃ value held slot,
            pairing.offered? (live.scene.slot? old pairing.source) = some value ∧
              live.scene.slot? new attr = some held ∧ after.scene.slot? new attr = some slot ∧
              held.Takes value slot := by
  have houtcome : (Mapping.mapAttributes LiveScene.host rule old new live).1 = outcome :=
    congrArg Prod.fst hrun
  have hafter : (Mapping.mapAttributes LiveScene.host rule old new live).2 = after :=
    congrArg Prod.snd hrun
  obtain ⟨hstate, hall⟩ := Mapping.tryRules_eq hne harity live (.refl live.scene) fun _ => rfl
  -- the outcome tells which pairs are accepted
  have hwrote : ∀ pairing ∈ rule.pairings, outcome.wrote pairing.source pairing.target =
      Mapping.accepted live.scene old new pairing := by
    intro pairing hpairing
    rw [← Mapping.pairings_attempts LiveScene.host old new rule live] at hpairing
    obtain ⟨attempt, hattempt, rfl⟩ := List.mem_map.mp hpairing
    rw [← hall attempt hattempt, ← Mapping.wrote_mapAttributes harity hattempt, houtcome]
  have hscene : after.scene = Mapping.written live.scene old new rule.pairings live.scene := by
    rw [← hafter, Mapping.mapAttributes_eq_tally]
    exact congrArg LiveScene.scene hstate
  refine ⟨?_, fun attr => ?_⟩
  · obtain ⟨scene, heq, hchanges⟩ := Mapping.changesOnly_mapAttributes rule old new live
    exact ⟨scene, hafter.symm.trans heq, hchanges⟩
  · rw [hscene, Rule.deciding?, Mapping.last?_congr hwrote]
    exact Mapping.slot?_written attr

/-- A phong shader that reads a texture, and a standard shader to take its place. -/
def redressing : LiveScene where
  scene :=
    { schemas := {}
      nodes := .ofPairs
        [(.ofNat 2, ⟨.ofNat 2, "phong", none, "skin", .ofPairs
            [("color", ⟨.float 0.0, some ⟨.ofNat 3, some "rgb"⟩⟩), ("matte", ⟨.bool true, none⟩),
              ("maps", ⟨.array [.connection ⟨.ofNat 3, none⟩], none⟩)], .empty⟩),
          (.ofNat 3, ⟨.ofNat 3, "file", none, "map", {}, .empty⟩),
          (.ofNat 4, ⟨.ofNat 4, "standard", none, "skin_standard", .ofPairs
            [("color", ⟨.float 0.0, none⟩), ("coat", ⟨.float 0.0, none⟩),
              ("weight", ⟨.int 0, some ⟨.ofNat 3, none⟩⟩), ("sheen", ⟨.float 0.5, none⟩)], .empty⟩)]
      roots := [] }
  supply := ⟨fun n => .ofNat (n + 5), 0⟩

/-- The colour goes to two targets; one target is named by three sources, of which the last one does
not fit it. -/
def dressing : Rule LiveScene :=
  ((((Rule.onto.fanOut "color" ["color", "coat"]).computed "matte" "weight"
    (.constant (.float 2.0))).computed "matte" "sheen" (.unary fun _ => .error ⟨"no sheen"⟩)).rename
      "maps" "weight")

def dressed : Mapping.Outcome × LiveScene :=
  Mapping.mapAttributes LiveScene.host dressing (.ofNat 2) (.ofNat 4) redressing

theorem dressed_slots :
    (∃ scene, dressed.2 = { redressing with scene } ∧
      redressing.scene.ChangesOnly (.ofNat 4) scene) ∧
      dressed.1.failures.map (fun failure => (failure.source, failure.target)) =
        [("matte", "sheen"), ("maps", "weight")] ∧
      dressed.2.scene.slot? (.ofNat 4) "coat" = some ⟨.float 0.0, some ⟨.ofNat 3, some "rgb"⟩⟩ ∧
      dressed.2.scene.slot? (.ofNat 4) "weight" = some ⟨.int 2, none⟩ ∧
      dressed.2.scene.slot? (.ofNat 4) "sheen" = some ⟨.float 0.5, none⟩ := by
  have hrun : dressed = (dressed.1, dressed.2) := (Prod.eta dressed).symm
  obtain ⟨hchanges, hslots⟩ := mapAttributes_slots
    (show NodeId.ofNat 2 ≠ .ofNat 4 by decide) (by decide) hrun
  have hnone : dressing.deciding? dressed.1 "sheen" = none :=
    Option.isNone_iff_eq_none.mp (by decide +kernel)
  have hsheen := hslots "sheen"
  rw [hnone] at hsheen
  exact ⟨hchanges, by decide +kernel, by decide +kernel, by decide +kernel,
    hsheen.trans (by decide +kernel)⟩

end ShaderMigration
