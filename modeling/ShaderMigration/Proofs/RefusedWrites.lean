import ShaderMigration.Proofs.SlotOverwrites

namespace ShaderMigration

namespace Value

theorem describe_scalar (payload : Scalar) :
    (scalar payload).describe = payload.kind.word ++ " scalar" := rfl

theorem describe_array (items : List Value) :
    (array items).describe = "array of " ++ toString items.length := rfl

end Value

namespace Scene

variable {scene scene' before after first second : Scene} {node : NodeId} {attr : String}
  {value : Value}

def stored? (scene : Scene) (node : NodeId) (attr : String) : Option Value :=
  (scene.slot? node attr).map Slot.value

/-- Why nothing can be written to an attribute. -/
def absence? (scene : Scene) (node : NodeId) (attr : String) : Option HostError :=
  match scene.slotForWriting node attr with
  | .ok _ => none
  | .error e => some e

/-- Why a value is not even offered to an attribute, whatever that holds. -/
def objection? (scene : Scene) (node : NodeId) (attr : String) (value : Value) : Option HostError :=
  match scene.missingPlug? value.plugs with
  | some missing => some (.noSuchNode missing)
  | none =>
    if value.isConnection = true ∧ ∃ plug ∈ value.plugs, plug.node = node then
      some (.rejected node attr .selfConnection)
    else scene.absence? node attr

theorem connect_error {plug : Plug} {e : HostError} (h : scene.connect plug node attr = .error e) :
    scene.objection? node attr (.connection plug) = some e := by
  unfold connect at h
  unfold objection? missingPlug? Value.plugs
  rw [except_bind_eq_error_iff] at h
  rcases h with hplug | ⟨found, hplug, h⟩
  · obtain ⟨hnone, rfl⟩ := node_eq_error_iff.mp hplug
    have hmissing : scene.nodes.contains plug.node = false := by rw [Table.contains, hnone]; rfl
    simp only [List.find?_cons, hmissing, Bool.not_false, Option.map_some]
  · have hthere : scene.nodes.contains plug.node = true := by
      rw [Table.contains, node_eq_ok_iff.mp hplug]
      rfl
    simp only [List.find?_cons, hthere, Bool.not_true, List.find?_nil, Option.map_none]
    by_cases hself : plug.node = node
    · rw [if_pos ⟨rfl, plug, List.mem_singleton_self plug, hself⟩]
      simp only [hself, if_true] at h
      exact congrArg some (Except.error.inj h)
    · rw [if_neg fun hconn => hself (by simpa using hconn.2)]
      simp only [hself, if_false] at h
      rcases except_bind_eq_error_iff.mp h with hwriting | ⟨held, _, hput⟩
      · rw [absence?, hwriting]
      · cases hput

/-- A write that fails is not offered to the attribute, or the attribute holds something that the
value does not fit. -/
theorem set_error {e : HostError} (h : scene.set node attr value = .error e) :
    scene.objection? node attr value = some e ∨
      scene.objection? node attr value = none ∧ ∃ held refusal,
        scene.stored? node attr = some held ∧ fit held value = .error refusal ∧
          e = .rejected node attr refusal := by
  cases hvalue : value.isConnection with
  | true =>
    cases value with
    | scalar payload => cases hvalue
    | array items => cases hvalue
    | connection plug => exact .inl (connect_error h)
  | false =>
    rw [set_static hvalue, except_bind_eq_error_iff] at h
    unfold objection?
    rcases h with hcheck | ⟨_, hcheck, h⟩
    · unfold checkPlugs at hcheck
      cases hmissing : scene.missingPlug? value.plugs with
      | none => rw [hmissing] at hcheck; cases hcheck
      | some missing =>
        rw [hmissing] at hcheck
        exact .inl (congrArg some (Except.error.inj hcheck))
    · have hmissing : scene.missingPlug? value.plugs = none := by
        unfold checkPlugs at hcheck
        cases hfound : scene.missingPlug? value.plugs with
        | none => rfl
        | some missing => rw [hfound] at hcheck; cases hcheck
      rw [hmissing, hvalue]
      simp only [Bool.false_eq_true, false_and, if_false]
      -- past its plugs, a value is refused by the absence of the slot or by what the slot holds
      rcases except_bind_eq_error_iff.mp h with hwriting | ⟨held, hwriting, h⟩
      · exact .inl (by rw [absence?, hwriting])
      · refine .inr ⟨by rw [absence?, hwriting], held.value, ?_⟩
        have hheld := slotForWriting_eq_ok_iff.mp hwriting
        rcases except_bind_eq_error_iff.mp h with hfit | ⟨fitted, _, hput⟩
        · obtain ⟨refusal, hrefusal, rfl⟩ := except_mapError_eq_error_iff.mp hfit
          exact ⟨refusal, by rw [stored?, hheld]; rfl, hrefusal, rfl⟩
        · cases hput

theorem SameShapes.objection?_eq (h : first.SameShapes second) (node : NodeId) (attr : String)
    (value : Value) : second.objection? node attr value = first.objection? node attr value := by
  have hcontains : ∀ id, second.nodes.contains id = first.nodes.contains id := by
    intro id
    rw [Bool.eq_iff_iff, Table.contains_iff, Table.contains_iff, h.keys]
  have hmissing : second.missingPlug? value.plugs = first.missingPlug? value.plugs := by
    unfold missingPlug?
    simp only [hcontains]
  have habsence : second.absence? node attr = first.absence? node attr := by
    have hnode := hcontains node
    have hslot := congrArg Option.isSome (h.shapes node attr)
    rw [Option.isSome_map, Option.isSome_map] at hslot
    unfold Table.contains at hnode
    unfold absence? slotForWriting slot
    cases hfound : first.nodes.find? node <;> cases hfound' : second.nodes.find? node <;>
      simp only [hfound, hfound', Option.isSome_none, Option.isSome_some, Bool.false_eq_true,
        Bool.true_eq_false] at hnode ⊢
    cases hheld : first.slot? node attr <;> cases hheld' : second.slot? node attr <;>
      simp only [hheld, hheld', Option.isSome_none, Option.isSome_some, Bool.false_eq_true,
        Bool.true_eq_false] at hslot ⊢
  unfold objection?
  rw [hmissing, habsence]

/-- The items of an array attribute before and after. -/
def ArraysAt (before after : Scene) (node : NodeId) (attr : String) (items items' : List Value) : Prop :=
  before.stored? node attr = some (.array items) ∧ after.stored? node attr = some (.array items')

/-- Two scenes at the same time of the two runs: what an attribute stores is described alike, or is
an array that has not been replaced so far. -/
structure Replays (before after first second : Scene) : Prop where
  shapes : first.SameShapes second
  stored : ∀ node attr held held', first.stored? node attr = some held →
    second.stored? node attr = some held' → held'.describe = held.describe ∨
      ∃ items items', held = .array items ∧ held' = .array items' ∧
        before.ArraysAt after node attr items items'

/-- The same error, but for the length of the array that the attribute holds. -/
inductive Retells (before after : Scene) (node : NodeId) (attr : String) : HostError → HostError → Prop
  | same (e : HostError) : Retells before after node attr e e
  | array (found : String) {items items' : List Value}
      (h : before.ArraysAt after node attr items items') :
      Retells before after node attr (.rejected node attr (.shape found (Value.array items).describe))
        (.rejected node attr (.shape found (Value.array items').describe))

/-- Values of one shape are in the way of the same values. -/
theorem fit_error_congr {held held' : Value} {refusal refusal' : Refusal}
    (hshape : held'.shape = held.shape) (h : fit held value = .error refusal)
    (h' : fit held' value = .error refusal') :
    refusal' = refusal ∨
      refusal = .shape value.describe held.describe ∧ refusal' = .shape value.describe held'.describe := by
  cases held with
  | connection plug =>
    cases held' with
    | connection plug' => exact .inr ⟨(Except.error.inj h).symm, (Except.error.inj h').symm⟩
    | scalar payload => cases hshape
    | array items => cases hshape
  | array items =>
    cases held' with
    | array items' =>
      cases value with
      | array new => cases h
      | scalar payload => exact .inr ⟨(Except.error.inj h).symm, (Except.error.inj h').symm⟩
      | connection plug => exact .inr ⟨(Except.error.inj h).symm, (Except.error.inj h').symm⟩
    | scalar payload => cases hshape
    | connection plug => cases hshape
  | scalar old =>
    cases held' with
    | scalar old' =>
      have hkind : old'.kind = old.kind := Shape.scalar.inj hshape
      cases value with
      | scalar payload =>
        -- only the kind decides
        left
        have hsame : fit (.scalar old') (.scalar payload) = fit (.scalar old) (.scalar payload) := by
          simp only [fit, hkind]
        exact Except.error.inj (h'.symm.trans (hsame.trans h))
      | connection plug => exact .inr ⟨(Except.error.inj h).symm, (Except.error.inj h').symm⟩
      | array items => exact .inr ⟨(Except.error.inj h).symm, (Except.error.inj h').symm⟩
    | connection plug => cases hshape
    | array items => cases hshape

theorem SameShapes.stored (h : first.SameShapes second) {held held' : Value}
    (hheld : first.stored? node attr = some held) (hheld' : second.stored? node attr = some held') :
    held'.shape = held.shape := by
  obtain ⟨slot, hslot, rfl⟩ := Option.map_eq_some_iff.mp hheld
  obtain ⟨slot', hslot', rfl⟩ := Option.map_eq_some_iff.mp hheld'
  have hshape := h.shapes node attr
  rw [hslot, hslot'] at hshape
  exact Option.some.inj hshape

/-- A value that is refused in both runs is refused for the same reason. -/
theorem Replays.retells (h : before.Replays after first second) {e e' : HostError}
    (hfirst : first.set node attr value = .error e) (hsecond : second.set node attr value = .error e') :
    before.Retells after node attr e e' := by
  have hobjection := h.shapes.objection?_eq node attr value
  rcases set_error hfirst with he | ⟨he, held, refusal, hheld, hfit, rfl⟩ <;>
    rcases set_error hsecond with he' | ⟨he', held', refusal', hheld', hfit', rfl⟩
  · obtain rfl := Option.some.inj (he'.symm.trans (hobjection.trans he))
    exact .same e'
  · rw [hobjection, he] at he'
    cases he'
  · rw [hobjection, he] at he'
    cases he'
  · have hshape := h.shapes.stored hheld hheld'
    rcases fit_error_congr hshape hfit hfit' with rfl | ⟨rfl, rfl⟩
    · exact .same _
    · rcases h.stored node attr held held' hheld hheld' with hsame | ⟨items, items', rfl, rfl, harrays⟩
      · rw [hsame]
        exact .same _
      · exact .array _ harrays

/-- Scenes that are overwritten in the same way stay alike. -/
theorem Replays.overwrite (h : before.Replays after first second) (write : String × Overwrite)
    (hshapes : (first.overwrite node write).SameShapes (second.overwrite node write)) :
    before.Replays after (first.overwrite node write) (second.overwrite node write) := by
  refine ⟨hshapes, fun other name held held' hheld hheld' => ?_⟩
  unfold stored? at hheld hheld'
  rw [slot?_overwrite] at hheld hheld'
  by_cases hwritten : other = node ∧ name = write.1
  · rw [if_pos hwritten, Option.map_map] at hheld hheld'
    obtain ⟨slot, hslot, rfl⟩ := Option.map_eq_some_iff.mp hheld
    obtain ⟨slot', hslot', rfl⟩ := Option.map_eq_some_iff.mp hheld'
    have hstored := h.stored other name slot.value slot'.value (by rw [stored?, hslot]; rfl)
      (by rw [stored?, hslot']; rfl)
    cases hvalue : write.2.value with
    | none => simpa [Overwrite.apply, hvalue] using hstored
    | some value => exact .inl (by simp [Overwrite.apply, hvalue])
  · rw [if_neg hwritten] at hheld hheld'
    exact h.stored other name held held' hheld hheld'

theorem Replays.set (h : before.Replays after first second) (node : NodeId) (attr : String)
    (value : Value) :
    (∃ later later', first.set node attr value = .ok later ∧ second.set node attr value = .ok later' ∧
      before.Replays after later later') ∨
    ∃ e e', first.set node attr value = .error e ∧ second.set node attr value = .error e' ∧
      before.Retells after node attr e e' := by
  cases hfirst : first.set node attr value with
  | ok later =>
    obtain ⟨later', hsecond⟩ := h.shapes.exists_set_iff.mpr ⟨later, hfirst⟩
    refine .inl ⟨later, later', rfl, hsecond, ?_⟩
    have hshapes := ((SameShapes.of_refits (refits_of_set hfirst)).symm.trans h.shapes).trans
      (.of_refits (refits_of_set hsecond))
    obtain ⟨held, hheld, rfl⟩ := overwrite_of_set hfirst
    obtain ⟨held', hheld', rfl⟩ := overwrite_of_set hsecond
    have hshape := h.shapes.shapes node attr
    rw [hheld, hheld'] at hshape
    have hsame : held'.value.shape = held.value.shape := Option.some.inj hshape
    rw [hsame] at hshapes ⊢
    exact h.overwrite _ hshapes
  | error e =>
    cases hsecond : second.set node attr value with
    | ok later' =>
      obtain ⟨later, hlater⟩ := h.shapes.exists_set_iff.mp ⟨later', hsecond⟩
      rw [hfirst] at hlater
      cases hlater
    | error e' => exact .inr ⟨e, e', rfl, rfl, h.retells hfirst hsecond⟩

/-- A stored connection stays, whatever is written over it. -/
theorem stored?_of_set_connection {plug : Plug} {other : NodeId} {name : String}
    (h : scene.set node attr value = .ok scene')
    (hstored : scene.stored? other name = some (.connection plug)) :
    scene'.stored? other name = some (.connection plug) := by
  obtain ⟨_, _, shape, hshape, hadmits⟩ := exists_set_iff.mp ⟨scene', h⟩
  obtain ⟨held, hheld, rfl⟩ := overwrite_of_set h
  obtain ⟨slot, hslot, hvalue⟩ := Option.map_eq_some_iff.mp hstored
  rw [stored?, slot?_overwrite]
  by_cases hwritten : other = node ∧ name = attr
  · obtain ⟨rfl, rfl⟩ := hwritten
    obtain rfl := Option.some.inj (hheld.symm.trans hslot)
    rw [if_pos ⟨rfl, rfl⟩, hheld, Option.map_some, Option.map_some]
    rw [hheld] at hshape
    obtain rfl := Option.some.inj hshape
    cases value with
    | connection new => exact congrArg some hvalue
    | scalar payload => simp [hvalue, Value.shape, Shape.admits] at hadmits
    | array items => simp [hvalue, Value.shape, Shape.admits] at hadmits
  · rw [if_neg hwritten, hslot]
    exact congrArg some hvalue

/-- The second run begins where the first one ended. -/
theorem Replays.of_start (h : before.SameShapes after)
    (hconnections : ∀ node attr plug, before.stored? node attr = some (.connection plug) →
      after.stored? node attr = some (.connection plug)) :
    before.Replays after before after := by
  refine ⟨h, fun node attr held held' hheld hheld' => ?_⟩
  have hshape := h.stored hheld hheld'
  cases held with
  | connection plug =>
    have hkept := hconnections node attr plug hheld
    rw [hheld'] at hkept
    exact .inl (by rw [Option.some.inj hkept])
  | array items =>
    cases held' with
    | array items' => exact .inr ⟨items, items', rfl, rfl, hheld, hheld'⟩
    | scalar payload => cases hshape
    | connection plug => cases hshape
  | scalar payload =>
    left
    cases held' with
    | connection plug => cases hshape
    | array items => cases hshape
    | scalar payload' =>
      have hkind : payload'.kind = payload.kind := Shape.scalar.inj hshape
      rw [Value.describe_scalar, Value.describe_scalar, hkind]

end Scene

end ShaderMigration
