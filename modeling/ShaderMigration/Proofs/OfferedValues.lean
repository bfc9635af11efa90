import ShaderMigration.Proofs.ScriptRun

namespace ShaderMigration

namespace Build

section Offer

variable (present : List NodeId) (node : NodeId) (attr : String)

/-- What an attribute holds after it was connected while these nodes are there, or why it refuses. -/
def offerPlug (held : Option Slot) (source : Plug) : Except HostError Slot :=
  if source.node ∈ present then
    if source.node = node then .error (.rejected node attr .selfConnection)
    else match held with
      | some slot => .ok { slot with input := some source }
      | none => .error (.noSuchAttribute node attr)
  else .error (.noSuchNode source.node)

/-- What an attribute holds after a value was written to it, which is no connection. -/
def offerStatic (held : Option Slot) (value : Value) : Except HostError Slot :=
  match value.plugs.find? fun plug => plug.node ∉ present with
  | some plug => .error (.noSuchNode plug.node)
  | none =>
    match held with
    | none => .error (.noSuchAttribute node attr)
    | some slot =>
      match Scene.fit slot.value value with
      | .ok fitted => .ok ⟨fitted, none⟩
      | .error reason => .error (.rejected node attr reason)

def offer (held : Option Slot) : Value → Except HostError Slot
  | .connection source => offerPlug present node attr held source
  | value => offerStatic present node attr held value

variable {present node attr} {scene : Scene}

theorem offerPlug_of_mem {held : Option Slot} {source : Plug} (h : source.node ∈ present) :
    offerPlug present node attr held source = offerPlug [source.node] node attr held source := by
  simp [offerPlug, h]

theorem connect_eq_offerPlug (hnode : node ∈ scene.nodes.keys) (source : Plug) :
    scene.connect source node attr =
      (offerPlug scene.nodes.keys node attr (scene.slot? node attr) source).map
        (scene.putSlot node attr) := by
  obtain ⟨found, hfound⟩ := Table.mem_keys_iff.mp hnode
  unfold offerPlug Scene.connect
  by_cases hsource : source.node ∈ scene.nodes.keys
  · obtain ⟨other, hother⟩ := Table.mem_keys_iff.mp hsource
    rw [Scene.node_eq_ok_iff.mpr hother, if_pos hsource]
    by_cases hself : source.node = node
    · rw [if_pos hself, if_pos hself]
      rfl
    · rw [if_neg hself, if_neg hself]
      simp only [bind, Except.bind, Scene.slotForWriting, hfound, Scene.slot]
      cases scene.slot? node attr <;> rfl
  · have hmissing : scene.node source.node = .error (.noSuchNode source.node) := by
      unfold Scene.node Table.find?
      rw [Entries.find?_eq_none_iff.mpr hsource]
    rw [hmissing, if_neg hsource]
    rfl

theorem set_eq_offer (hnode : node ∈ scene.nodes.keys) (value : Value) :
    scene.set node attr value =
      (offer scene.nodes.keys node attr (scene.slot? node attr) value).map
        (scene.putSlot node attr) := by
  obtain ⟨found, hfound⟩ := Table.mem_keys_iff.mp hnode
  have hstatic : (do
      scene.checkPlugs value
      let slot ← scene.slotForWriting node attr
      let fitted ← (Scene.fit slot.value value).mapError (.rejected node attr)
      return scene.putSlot node attr ⟨fitted, none⟩) =
        (offerStatic scene.nodes.keys node attr (scene.slot? node attr) value).map
          (scene.putSlot node attr) := by
    have hmissing : (value.plugs.find? fun plug => !scene.nodes.contains plug.node) =
        value.plugs.find? fun plug => decide (plug.node ∉ scene.nodes.keys) := by
      congr 1
      funext plug
      simp [← Table.contains_iff]
    unfold offerStatic Scene.checkPlugs Scene.missingPlug?
    rw [hmissing]
    cases value.plugs.find? fun plug => decide (plug.node ∉ scene.nodes.keys) with
    | some plug => rfl
    | none =>
      simp only [Option.map_none, bind, Except.bind, Scene.slotForWriting, hfound, Scene.slot]
      cases scene.slot? node attr with
      | none => rfl
      | some slot =>
        dsimp only
        cases Scene.fit slot.value value <;> rfl
  cases value with
  | connection source => exact connect_eq_offerPlug hnode source
  | scalar payload => exact hstatic
  | array items => exact hstatic

/-- What a value comes to in an attribute of which this is the default: a connection to an output, or
the value in the kind of the default. -/
def effect (default : Value) : Value → Except Refusal Value
  | .connection source => .ok (.connection source)
  | value => Scene.fit default value

/-- A value that fits takes the kind of the one it replaces. -/
theorem fit_of_fit {old value fitted : Value} (h : Scene.fit old value = .ok fitted)
    (other result : Value) :
    Scene.fit fitted other = .ok result ↔ Scene.fit old other = .ok result := by
  unfold Scene.fit at h
  split at h
  next held payload =>
    split at h
    next kept hkept =>
      obtain rfl := Except.ok.inj h
      have hkind : kept.kind = held.kind := Scalar.kind_of_coerce? hkept
      cases other <;> simp [Scene.fit, hkind]
    next => cases h
  next =>
    obtain rfl := Except.ok.inj h
    cases other <;> simp [Scene.fit]
  next => cases h

/-- A slot takes a connection over what it stores, and a value in place of it. -/
theorem offer_cases {held : Option Slot} {value : Value} {slot : Slot}
    (h : offer present node attr held value = .ok slot) : ∃ old, held = some old ∧
      ((∃ source, value = .connection source ∧ slot = { old with input := some source }) ∨
        (∀ source, value ≠ .connection source) ∧ ∃ fitted,
          Scene.fit old.value value = .ok fitted ∧ slot = ⟨fitted, none⟩) := by
  have hstatic : offerStatic present node attr held value = .ok slot → ∃ old, held = some old ∧
      ∃ fitted, Scene.fit old.value value = .ok fitted ∧ slot = ⟨fitted, none⟩ := by
    intro hstatic
    unfold offerStatic at hstatic
    split at hstatic
    next => cases hstatic
    next =>
      split at hstatic
      next => cases hstatic
      next old =>
        split at hstatic
        next fitted hfit => exact ⟨old, rfl, fitted, hfit, (Except.ok.inj hstatic).symm⟩
        next => cases hstatic
  cases value with
  | connection source =>
    have hplug : offerPlug present node attr held source = .ok slot := h
    unfold offerPlug at hplug
    split at hplug
    next =>
      split at hplug
      next => cases hplug
      next =>
        split at hplug
        next old => exact ⟨old, rfl, Or.inl ⟨source, rfl, (Except.ok.inj hplug).symm⟩⟩
        next => cases hplug
    next => cases hplug
  | scalar payload =>
    obtain ⟨old, hold, hfitted⟩ := hstatic h
    exact ⟨old, hold, Or.inr ⟨by simp, hfitted⟩⟩
  | array items =>
    obtain ⟨old, hold, hfitted⟩ := hstatic h
    exact ⟨old, hold, Or.inr ⟨by simp, hfitted⟩⟩

theorem effect_eq_fit {value : Value} (h : ∀ source, value ≠ .connection source) (default : Value) :
    effect default value = Scene.fit default value := by
  cases value with
  | connection source => exact absurd rfl (h source)
  | scalar payload => rfl
  | array items => rfl

/-- A slot that took a value shows what the value comes to, and keeps its kind. -/
theorem effect_of_offer {held : Option Slot} {value : Value} {slot : Slot}
    (h : offer present node attr held value = .ok slot) : ∃ old, held = some old ∧
      effect old.value value = .ok slot.live ∧
      ∀ other result, Scene.fit slot.value other = .ok result ↔
        Scene.fit old.value other = .ok result := by
  obtain ⟨old, hold, hcases⟩ := offer_cases h
  refine ⟨old, hold, ?_⟩
  rcases hcases with ⟨source, rfl, rfl⟩ | ⟨hvalue, fitted, hfit, rfl⟩
  · exact ⟨rfl, fun _ _ => Iff.rfl⟩
  · exact ⟨(effect_eq_fit hvalue _).trans hfit, fit_of_fit hfit⟩

end Offer

end Build

end ShaderMigration
