import ShaderMigration.Proofs.MappingAttempts
import ShaderMigration.Proofs.WellFormedScenes

namespace ShaderMigration

/-- Whether a slot that stores a value of the shape takes a value. -/
def Shape.admits : Shape → Value → Bool
  | _, .connection _ => true
  | .scalar kind, .scalar payload => (payload.coerce? kind).isSome
  | .array, .array _ => true
  | _, _ => false

namespace Scene

variable {scene scene' : Scene} {node : NodeId} {attr : String} {value : Value}

theorem exists_fit_iff (held : Value) (hvalue : value.isConnection = false) :
    (∃ fitted, fit held value = .ok fitted) ↔ held.shape.admits value = true := by
  cases value with
  | connection plug => cases hvalue
  | scalar payload =>
    cases held with
    | connection plug => simp [fit, Value.shape, Shape.admits]
    | array items => simp [fit, Value.shape, Shape.admits]
    | scalar old =>
      cases hcoerce : payload.coerce? old.kind <;>
        simp [fit, Value.shape, Shape.admits, hcoerce]
  | array items => cases held <;> simp [fit, Value.shape, Shape.admits]

/-- Whether a value can be written depends on which nodes there are and on the shape of the slot. -/
theorem exists_set_iff : (∃ scene', scene.set node attr value = .ok scene') ↔
    (∀ plug ∈ value.plugs, plug.node ∈ scene.nodes.keys) ∧
      (∀ plug, value = .connection plug → plug.node ≠ node) ∧
        ∃ shape ∈ (scene.slot? node attr).map fun slot => slot.value.shape,
          shape.admits value = true := by
  have hstatic : value.isConnection = false → ((∃ scene', scene.set node attr value = .ok scene') ↔
      (∀ plug ∈ value.plugs, plug.node ∈ scene.nodes.keys) ∧
        ∃ shape ∈ (scene.slot? node attr).map fun slot => slot.value.shape,
          shape.admits value = true) := by
    intro hvalue
    simp only [set_eq_ok_iff hvalue, checkPlugs_eq_ok_iff, Option.mem_def, Option.map_eq_some_iff]
    constructor
    · intro h
      obtain ⟨_, hplugs, slot, fitted, hslot, hfit, _⟩ := h
      exact ⟨hplugs, _, ⟨slot, hslot, rfl⟩, (exists_fit_iff slot.value hvalue).mp ⟨fitted, hfit⟩⟩
    · intro h
      obtain ⟨hplugs, _, ⟨slot, hslot, rfl⟩, hadmits⟩ := h
      obtain ⟨fitted, hfit⟩ := (exists_fit_iff slot.value hvalue).mpr hadmits
      exact ⟨_, hplugs, slot, fitted, hslot, hfit, rfl⟩
  cases value with
  | connection plug =>
    simp only [set_connection, connect_eq_ok_iff, Value.plugs, List.mem_singleton, forall_eq,
      Value.connection.injEq, Option.mem_def, Option.map_eq_some_iff]
    constructor
    · intro h
      obtain ⟨_, hplug, hself, slot, hslot, _⟩ := h
      exact ⟨hplug, by rintro _ rfl; exact hself, _, ⟨slot, hslot, rfl⟩, by simp [Shape.admits]⟩
    · intro h
      obtain ⟨hplug, hself, _, ⟨slot, hslot, _⟩, _⟩ := h
      exact ⟨_, hplug, hself plug rfl, slot, hslot, rfl⟩
  | scalar payload => simpa using hstatic rfl
  | array items => simpa using hstatic rfl

/-- The same nodes with the same slots, which store values of the same shapes. -/
structure SameShapes (scene scene' : Scene) : Prop where
  keys : scene'.nodes.keys = scene.nodes.keys
  shapes : ∀ node attr, ((scene'.slot? node attr).map fun slot => slot.value.shape) =
    (scene.slot? node attr).map fun slot => slot.value.shape

namespace SameShapes

theorem refl (scene : Scene) : scene.SameShapes scene := ⟨rfl, fun _ _ => rfl⟩

theorem symm {first second : Scene} (h : first.SameShapes second) : second.SameShapes first :=
  ⟨h.keys.symm, fun node attr => (h.shapes node attr).symm⟩

theorem trans {first second third : Scene} (h : first.SameShapes second)
    (h' : second.SameShapes third) : first.SameShapes third :=
  ⟨h'.keys.trans h.keys, fun node attr => (h'.shapes node attr).trans (h.shapes node attr)⟩

theorem of_refits (h : scene.Refits scene' node attr) : scene.SameShapes scene' := by
  obtain ⟨slot, slot', hslot, rfl, hshape⟩ := h
  refine ⟨Table.keys_modify _ _ _, fun other name => ?_⟩
  rw [slot?_putSlot]
  split
  next heq =>
    obtain ⟨rfl, rfl⟩ := heq
    rw [hslot, Option.map_some, Option.map_some, Option.map_some, hshape]
  next => rfl

theorem exists_set_iff (h : scene.SameShapes scene') :
    (∃ later, scene'.set node attr value = .ok later) ↔
      ∃ later, scene.set node attr value = .ok later := by
  rw [Scene.exists_set_iff, Scene.exists_set_iff, h.keys, h.shapes]

end SameShapes

end Scene

/-- What a pair offers to its target: what the source shows, or what is computed from what it
stores.  Nothing is offered if the source is missing or the computation fails. -/
def Pairing.offered? (pairing : Pairing) (held : Option Slot) : Option Value :=
  match pairing.converter with
  | none => held.map Slot.live
  | some (.constant fixed) => some fixed
  | some (.unary f) => held.bind fun slot => (f slot.value).toOption
  | some _ => none

namespace Mapping

variable {start scene scene' : Scene} {old new : NodeId} {pairing : Pairing}

/-- The scene after the target of a pair took what was offered, if it did.  The source is read in
the scene at the start. -/
def takes? (start scene : Scene) (old new : NodeId) (pairing : Pairing) : Option Scene :=
  (pairing.offered? (start.slot? old pairing.source)).bind fun value =>
    (scene.set new pairing.target value).toOption

theorem takes?_eq_some_iff : takes? start scene old new pairing = some scene' ↔
    ∃ value, pairing.offered? (start.slot? old pairing.source) = some value ∧
      scene.set new pairing.target value = .ok scene' := by
  unfold takes?
  rw [Option.bind_eq_some_iff]
  refine exists_congr fun value => and_congr_right fun _ => ?_
  cases scene.set new pairing.target value <;> simp [Except.toOption]

def accepted (start : Scene) (old new : NodeId) (pairing : Pairing) : Bool :=
  (takes? start start old new pairing).isSome

theorem sameShapes_of_takes? (h : takes? start scene old new pairing = some scene') :
    scene.SameShapes scene' := by
  obtain ⟨_, _, hset⟩ := takes?_eq_some_iff.mp h
  exact .of_refits (Scene.refits_of_set hset)

variable (old new pairing) in
/-- Whether a pair is accepted is settled from the start. -/
theorem isSome_takes? (h : start.SameShapes scene) :
    (takes? start scene old new pairing).isSome = accepted start old new pairing := by
  have hiff : (∃ later, takes? start scene old new pairing = some later) ↔
      ∃ later, takes? start start old new pairing = some later := by
    simp only [takes?_eq_some_iff, exists_comm (α := Scene), exists_and_left, h.exists_set_iff]
  rw [Bool.eq_iff_iff, accepted, Option.isSome_iff_exists, Option.isSome_iff_exists]
  exact hiff

/-- The scene after the pairs were tried in turn. -/
def written (start : Scene) (old new : NodeId) (pairings : List Pairing) (scene : Scene) : Scene :=
  pairings.foldl (fun scene pairing => (takes? start scene old new pairing).getD scene) scene

theorem sameShapes_getD_takes? :
    scene.SameShapes ((takes? start scene old new pairing).getD scene) := by
  cases h : takes? start scene old new pairing with
  | none => exact .refl scene
  | some later => exact sameShapes_of_takes? h

theorem sameShapes_written (pairings : List Pairing) :
    scene.SameShapes (written start old new pairings scene) := by
  induction pairings generalizing scene with
  | nil => exact .refl scene
  | cons pairing rest ih => exact sameShapes_getD_takes?.trans ih

def Source.ofLive : Value → Source
  | .connection plug => .live [plug]
  | value => .stored value

theorem readSource_eq (attr : String) : readSource scene.reads old attr =
    match scene.slot? old attr with
    | some slot => .ok (.ofLive slot.live)
    | none => .error (.noSuchAttribute old attr) := by
  unfold readSource
  cases hslot : scene.slot? old attr with
  | none =>
    simp [Scene.reads, Scene.slot, hslot, Except.map, bind, Except.bind]
  | some slot =>
    obtain ⟨value, input⟩ := slot
    cases input with
    | some plug =>
      simp [Scene.reads, Scene.slot, hslot, Except.map, bind, Except.bind, Slot.live, Source.ofLive,
        pure, Except.pure]
    | none =>
      cases value <;>
        simp [Scene.reads, Scene.slot, hslot, Except.map, bind, Except.bind, Slot.live,
          Source.ofLive, pure, Except.pure]

theorem writeSource_ofLive (value : Value) (target : String) (live : LiveScene) :
    writeSource LiveScene.host (.ofLive value) new target live =
      LiveScene.host.set new target value live := by
  cases value with
  | connection plug =>
    change connectAll LiveScene.host new target [plug] live = _
    rw [connectAll, action_bind]
    have hset : LiveScene.host.set new target (.connection plug) live =
        LiveScene.host.connect plug new target live := rfl
    rw [hset]
    obtain ⟨result, later⟩ := LiveScene.host.connect plug new target live
    cases result <;> rfl
  | scalar payload => rfl
  | array items => rfl

section Writes

variable (start old new)

/-- A pair that reads no more than its source writes what it offers. -/
theorem write_eq (harity : pairing.arity ≤ 1) :
    (∀ value, pairing.offered? (start.slot? old pairing.source) = some value → ∀ live,
      write LiveScene.host old new (reading start.reads old pairing.source) pairing live =
        ((LiveScene.host.set new pairing.target value live).1.mapError .host,
          (LiveScene.host.set new pairing.target value live).2)) ∧
      (pairing.offered? (start.slot? old pairing.source) = none → ∃ cause, ∀ live,
        write LiveScene.host old new (reading start.reads old pairing.source) pairing live =
          (.error cause, live)) := by
  obtain ⟨source, target, converter⟩ := pairing
  have hstored : start.reads.getStatic old source = (start.slot old source).map Slot.value := rfl
  cases converter with
  | none =>
    simp only [Pairing.offered?, write, reading, readSource_eq]
    cases start.slot? old source with
    | none => exact ⟨by simp, fun _ => ⟨_, fun _ => rfl⟩⟩
    | some slot =>
      simp only [Option.map_some, Option.some.injEq, writeSource_ofLive]
      exact ⟨fun value heq _ => heq ▸ rfl, by simp⟩
  | some converter =>
    cases converter with
    | constant fixed =>
      exact ⟨fun value heq _ => Option.some.inj heq ▸ rfl, by simp [Pairing.offered?]⟩
    | unary f =>
      simp only [Pairing.offered?, write, reading, hstored, Scene.slot, computeTarget, computeValue]
      cases start.slot? old source with
      | none => exact ⟨by simp, fun _ => ⟨_, fun _ => rfl⟩⟩
      | some slot =>
        simp only [Except.map, Converter.evaluate, Option.bind_some]
        cases f slot.value with
        | error cause => exact ⟨by simp [Except.toOption], fun _ => ⟨_, fun _ => rfl⟩⟩
        | ok result =>
          exact ⟨fun value heq _ => Option.some.inj heq ▸ rfl, by simp [Except.toOption]⟩
    | binary f => exact absurd harity (by simp [Pairing.arity, Converter.arity])
    | ternary f => exact absurd harity (by simp [Pairing.arity, Converter.arity])

/-- The target of a pair takes what was offered, or nothing changes. -/
theorem write_cases (harity : pairing.arity ≤ 1) (live : LiveScene) :
    (∃ scene, takes? start live.scene old new pairing = some scene ∧
      write LiveScene.host old new (reading start.reads old pairing.source) pairing live =
        (.ok (), { live with scene })) ∨
      ∃ cause, takes? start live.scene old new pairing = none ∧
        write LiveScene.host old new (reading start.reads old pairing.source) pairing live =
          (.error cause, live) := by
  obtain ⟨hsome, hnone⟩ := write_eq start old new harity
  unfold takes?
  cases hoffered : pairing.offered? (start.slot? old pairing.source) with
  | none =>
    obtain ⟨cause, hwrite⟩ := hnone hoffered
    exact Or.inr ⟨cause, rfl, hwrite live⟩
  | some value =>
    rw [hsome value hoffered live]
    have hset : LiveScene.host.set new pairing.target value live =
        LiveScene.edit () (Scene.set · new pairing.target value) live := rfl
    rcases LiveScene.edit_cases () (Scene.set · new pairing.target value) live with
      ⟨scene, hok, heq⟩ | ⟨cause, herror, heq⟩
    · rw [hset, heq]
      exact Or.inl ⟨scene, by simp [hok, Except.toOption], rfl⟩
    · rw [hset, heq]
      exact Or.inr ⟨.host cause, by simp [herror, Except.toOption], rfl⟩

/-- A pair succeeds exactly when its target takes what it offers. -/
theorem write_takes (harity : pairing.arity ≤ 1) (live : LiveScene) :
    ∃ result, write LiveScene.host old new (reading start.reads old pairing.source) pairing live =
        (result, { live with scene := (takes? start live.scene old new pairing).getD live.scene }) ∧
      result.toBool = (takes? start live.scene old new pairing).isSome := by
  rcases write_cases start old new harity live with
    ⟨scene, htakes, hwrite⟩ | ⟨cause, htakes, hwrite⟩
  · rw [hwrite, htakes]
    exact ⟨_, rfl, rfl⟩
  · rw [hwrite, htakes]
    exact ⟨_, rfl, rfl⟩

/-- Pairs of one source are accepted or not as they would be at the start. -/
theorem tryPairings_eq {source : String} {pairings : List Pairing}
    (hsource : ∀ pairing ∈ pairings, pairing.source = source)
    (harity : ∀ pairing ∈ pairings, pairing.arity ≤ 1) (live : LiveScene)
    (hshapes : start.SameShapes live.scene) :
    let run := tryPairings LiveScene.host old new (reading start.reads old source) pairings live
    run.2 = { live with scene := written start old new pairings live.scene } ∧
      ∀ attempt ∈ run.1, attempt.succeeded = accepted start old new attempt.pairing := by
  induction pairings generalizing live with
  | nil => exact ⟨rfl, fun _ h => absurd h List.not_mem_nil⟩
  | cons pairing rest ih =>
    rw [List.forall_mem_cons] at hsource harity
    obtain ⟨rfl, hsources⟩ := hsource
    obtain ⟨result, hwrite, hresult⟩ := write_takes start old new harity.1 live
    rw [isSome_takes? old new pairing hshapes] at hresult
    obtain ⟨hstate, hall⟩ := ih hsources harity.2
      { live with scene := (takes? start live.scene old new pairing).getD live.scene }
      (hshapes.trans sameShapes_getD_takes?)
    rw [tryPairings_cons, hwrite]
    exact ⟨hstate, List.forall_mem_cons.mpr ⟨hresult, hall⟩⟩

end Writes

theorem eq_of_mem_pairings {rule : AttributeRule} {source : String} {first second : Pairing}
    (hfirst : first ∈ rule.pairings source) (hsecond : second ∈ rule.pairings source)
    (htarget : first.target = second.target) : first = second := by
  cases rule with
  | rename target => rw [List.mem_singleton.mp hfirst, List.mem_singleton.mp hsecond]
  | fanOut targets =>
    obtain ⟨target, _, rfl⟩ := List.mem_map.mp hfirst
    obtain ⟨other, _, rfl⟩ := List.mem_map.mp hsecond
    rw [show target = other from htarget]
  | computed converters =>
    obtain ⟨⟨target, converter⟩, hmem, rfl⟩ := List.mem_map.mp hfirst
    obtain ⟨⟨other, converter'⟩, hmem', rfl⟩ := List.mem_map.mp hsecond
    obtain rfl : target = other := htarget
    have hsame := (Table.mem_entries_iff.mp hmem).symm.trans (Table.mem_entries_iff.mp hmem')
    rw [Option.some.inj hsame]

theorem source_of_mem_pairings {rule : AttributeRule} {source : String}
    (h : pairing ∈ rule.pairings source) : pairing.source = source := by
  cases rule with
  | rename target => rw [List.mem_singleton.mp h]
  | fanOut targets =>
    obtain ⟨target, _, rfl⟩ := List.mem_map.mp h
    rfl
  | computed converters =>
    obtain ⟨entry, _, rfl⟩ := List.mem_map.mp h
    rfl

/-- A pair that a rule names twice fails twice or not at all. -/
theorem succeeded_congr {rules : List (String × AttributeRule)} {live : LiveScene}
    (harity : ∀ pairing ∈ pairingsOf rules, pairing.arity ≤ 1)
    (hnodup : (Entries.keys rules).Nodup) {first second : Attempt}
    (hfirst : first ∈ (tryRules LiveScene.host old new rules live).1)
    (hsecond : second ∈ (tryRules LiveScene.host old new rules live).1)
    (hsource : first.pairing.source = second.pairing.source)
    (htarget : first.pairing.target = second.pairing.target) :
    first.succeeded = second.succeeded := by
  induction rules generalizing live with
  | nil => cases hfirst
  | cons entry rest ih =>
    rw [pairingsOf_cons, List.forall_mem_append] at harity
    obtain ⟨hhere, hlater⟩ := harity
    rw [Entries.keys_cons, List.nodup_cons] at hnodup
    have hblock := (tryPairings_eq live.scene old new (fun pairing h => source_of_mem_pairings h)
      hhere live (.refl live.scene)).2
    have hothers : ∀ later, ∀ attempt ∈ (tryRules LiveScene.host old new rest later).1,
        attempt.pairing.source ≠ entry.1 := by
      intro later attempt h heq
      obtain ⟨other, hother, hpairing⟩ := List.mem_flatMap.mp (pairing_mem_of_tryRules h)
      rw [source_of_mem_pairings hpairing] at heq
      exact hnodup.1 (heq ▸ List.mem_map_of_mem hother)
    rw [tryRules_cons, List.mem_append] at hfirst hsecond
    -- attempts of different rules have different sources, so these two are of one rule
    rcases hfirst with hfirst | hfirst <;> rcases hsecond with hsecond | hsecond
    · have hsame := eq_of_mem_pairings (pairing_mem_of_tryPairings hfirst)
        (pairing_mem_of_tryPairings hsecond) htarget
      exact (hblock _ hfirst).trans ((congrArg _ hsame).trans (hblock _ hsecond).symm)
    · have heq := source_of_mem_pairings (pairing_mem_of_tryPairings hfirst)
      exact absurd (hsource.symm.trans heq) (hothers _ _ hsecond)
    · have heq := source_of_mem_pairings (pairing_mem_of_tryPairings hsecond)
      exact absurd (hsource.trans heq) (hothers _ _ hfirst)
    · exact ih hlater hnodup.2 hfirst hsecond

/-- No failure of the outcome is about the source and the target. -/
def Outcome.wrote (outcome : Outcome) (source target : String) : Bool :=
  outcome.failures.all fun failure => (failure.source, failure.target) != (source, target)

theorem wrote_tally_iff {attempts : List Attempt} {source target : String} :
    (tally old new attempts).wrote source target = true ↔ ∀ attempt ∈ attempts,
      attempt.pairing.source = source → attempt.pairing.target = target →
        attempt.succeeded = true := by
  simp only [Outcome.wrote, tally, List.all_eq_true, List.mem_filterMap, bne_iff_ne, ne_eq,
    Prod.mk.injEq, not_and]
  constructor
  · intro h attempt hattempt hsource htarget
    cases hresult : attempt.result with
    | ok _ => rw [Attempt.succeeded, hresult]; rfl
    | error cause =>
      have hfailure : attempt.failure? old new = some ⟨old, new, attempt.pairing.source,
          attempt.pairing.target, cause⟩ := by rw [Attempt.failure?, hresult]
      exact absurd htarget (h _ ⟨attempt, hattempt, hfailure⟩ hsource)
  · intro h failure hfailure hsource htarget
    obtain ⟨attempt, hattempt, hsome⟩ := hfailure
    unfold Attempt.failure? at hsome
    cases hresult : attempt.result with
    | ok _ => simp [hresult] at hsome
    | error cause =>
      simp only [hresult, Option.some.injEq] at hsome
      subst hsome
      have hsucceeded := h attempt hattempt hsource htarget
      rw [Attempt.succeeded, hresult] at hsucceeded
      cases hsucceeded

/-- The failures of an outcome tell for each attempt whether it failed. -/
theorem wrote_mapAttributes {rule : Rule LiveScene} {live : LiveScene}
    (harity : ∀ pairing ∈ rule.pairings, pairing.arity ≤ 1) {attempt : Attempt}
    (h : attempt ∈ (attempts LiveScene.host rule old new live).1) :
    (mapAttributes LiveScene.host rule old new live).1.wrote attempt.pairing.source
      attempt.pairing.target = attempt.succeeded := by
  rw [mapAttributes_eq_tally, Bool.eq_iff_iff, wrote_tally_iff]
  refine ⟨fun hall => hall attempt h rfl rfl, fun hsucceeded other hother hsource htarget => ?_⟩
  rw [← hsucceeded]
  exact succeeded_congr harity rule.attributes.nodup hother h hsource htarget

end Mapping

end ShaderMigration
