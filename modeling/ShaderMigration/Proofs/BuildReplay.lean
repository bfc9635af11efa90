import ShaderMigration.Proofs.BuildLedger
import Mathlib.Data.List.Nodup

namespace ShaderMigration

theorem Scene.same_of_setTag {scene scene' : Scene} {node : NodeId} {key text : String}
    (h : scene.setTag node key text = .ok scene') :
    scene'.nodes.keys = scene.nodes.keys ∧ scene'.schemas = scene.schemas ∧
      ∀ other attr, scene'.slot? other attr = scene.slot? other attr := by
  obtain ⟨_, rfl⟩ := setTag_eq_ok_iff.mp h
  exact ⟨Table.keys_modify _ _ _, rfl, slot?_modify _ fun _ => rfl⟩

namespace Build

/-- The ids of the nodes that are there once so many are made. -/
def idsWith (start : LiveScene) (made : Nat) : List NodeId :=
  start.scene.nodes.keys ++ (List.range made).map start.idAt

def callsAt (place : Nat) (log : List (Nat × Call)) : List Call :=
  (log.filter fun entry => entry.1 == place).map Prod.snd

@[simp] theorem callsAt_append (place : Nat) (log log' : List (Nat × Call)) :
    callsAt place (log ++ log') = callsAt place log ++ callsAt place log' := by
  simp [callsAt]

theorem callsAt_concat_self (place : Nat) (log : List (Nat × Call)) (call : Call) :
    callsAt place (log ++ [(place, call)]) = callsAt place log ++ [call] := by
  simp [callsAt]

/-- The ledger of the node made at a place. -/
def ledgerAt (start : LiveScene) (log : List (Nat × Call)) (place : Nat) (type : String) : Ledger :=
  .after (start.idAt place) (start.scene.freshSlots type).find? (callsAt place log)

theorem ledgerAt_concat_self (start : LiveScene) (log : List (Nat × Call)) (place : Nat)
    (type : String) (call : Call) : ledgerAt start (log ++ [(place, call)]) place type =
      (ledgerAt start log place type).take (start.idAt place) call := by
  rw [ledgerAt, callsAt_concat_self, Ledger.after_concat]
  rfl

theorem ledgerAt_concat_of_ne {start : LiveScene} {log : List (Nat × Call)} {place other : Nat}
    (h : other ≠ place) (type : String) (call : Call) :
    ledgerAt start (log ++ [(place, call)]) other type = ledgerAt start log other type := by
  have hcalls : callsAt other (log ++ [(place, call)]) = callsAt other log := by
    simp [callsAt, Ne.symm h]
  rw [ledgerAt, hcalls]
  rfl

/-- The new nodes stand as the log of their orders says, and the older ones as they were. -/
structure Replay (start : LiveScene) (made : List NodeSpec) (log : List (Nat × Call))
    (building : Building LiveScene) : Prop where
  schemas : building.state.scene.schemas = start.scene.schemas
  supply : building.state.supply = { start.supply with drawn := start.supply.drawn + made.length }
  keys : building.state.scene.nodes.keys = idsWith start made.length
  declared : ∀ spec ∈ made, start.scene.schemas.contains spec.type = true
  created : building.output.created = (List.range made.length).map start.idAt
  older : ∀ node ∈ start.scene.nodes.keys, ∀ attr,
    building.state.scene.slot? node attr = start.scene.slot? node attr
  placed : ∀ entry ∈ log, entry.1 < made.length
  held : ∀ place spec, made[place]? = some spec → ∀ attr,
    building.state.scene.slot? (start.idAt place) attr =
      (ledgerAt start log place spec.type).held attr
  failures : ∀ place spec, made[place]? = some spec →
    (building.output.failures.filter fun failure => failure.node == start.idAt place) =
      (ledgerAt start log place spec.type).refusals (start.idAt place)
  failing : ∀ failure ∈ building.output.failures, failure.node ∈ building.output.created
  tagged : ∀ tag source, building.output.tags.find? tag = some source →
    source ∈ building.output.created

theorem getElem?_concat_cases {α : Type} {items : List α} {last item : α} {index : Nat}
    (h : (items ++ [last])[index]? = some item) :
    index < items.length ∧ items[index]? = some item ∨ index = items.length ∧ item = last := by
  by_cases hlt : index < items.length
  · exact Or.inl ⟨hlt, by rwa [List.getElem?_append_left hlt] at h⟩
  · rw [List.getElem?_append_right (Nat.le_of_not_lt hlt), List.getElem?_singleton] at h
    split at h
    next hzero => exact Or.inr ⟨by omega, (Option.some.inj h).symm⟩
    next => cases h

theorem create_cases {type : String} {node : NodeId} {before after : Building LiveScene}
    (h : create LiveScene.host type before = (.ok node, after)) :
    before.state.scene.schemas.contains type = true ∧ ∃ name, node = before.state.supply.next ∧
      after = { before with
        state := ⟨before.state.scene.addNode node type name none, before.state.supply.rest⟩
        output := { before.output with created := before.output.created ++ [node] } } := by
  have hlive : LiveScene.host.create type none before.state =
      LiveScene.create type none before.state := rfl
  unfold create at h
  rw [hlive, LiveScene.create_eq] at h
  cases hschema : before.state.scene.schemas.contains type with
  | false =>
    rw [hschema] at h
    cases (Prod.mk.inj h).1
  | true =>
    rw [hschema, if_pos rfl] at h
    obtain ⟨hnode, rfl⟩ := Prod.mk.inj h
    obtain rfl := Except.ok.inj hnode
    exact ⟨rfl, _, rfl, rfl⟩

namespace Replay

variable {start : LiveScene} {made : List NodeSpec} {log : List (Nat × Call)}
  {before after : Building LiveScene} {place : Nat}

theorem initial (start : LiveScene) : Replay start [] [] { state := start } where
  schemas := rfl
  supply := rfl
  keys := by simp [idsWith]
  declared := by simp
  created := rfl
  older := fun _ _ _ => rfl
  placed := by simp
  held := by simp
  failures := by simp
  failing := by simp
  tagged := fun _ _ htag => nomatch htag

theorem mem_keys_idAt (h : Replay start made log before) (hplace : place < made.length) :
    start.idAt place ∈ before.state.scene.nodes.keys := by
  rw [h.keys]
  exact List.mem_append_right _ (List.mem_map_of_mem (List.mem_range.mpr hplace))

theorem not_mem_idAt (h : Replay start made log before) (hplace : place < made.length) :
    start.idAt place ∉ start.scene.nodes.keys := by
  intro hmem
  have hnodup : (idsWith start made.length).Nodup := h.keys ▸ before.state.scene.nodes.nodup
  exact (List.nodup_append.mp hnodup).2.2 _ hmem _
    (List.mem_map_of_mem (List.mem_range.mpr hplace)) rfl

theorem idAt_inj (h : Replay start made log before) {other : Nat} (hplace : place < made.length)
    (hother : other < made.length) (heq : start.idAt place = start.idAt other) : place = other := by
  have hnodup : (idsWith start made.length).Nodup := h.keys ▸ before.state.scene.nodes.nodup
  have hids := (List.nodup_append.mp hnodup).2.1
  exact List.inj_on_of_nodup_map hids (List.mem_range.mpr hplace) (List.mem_range.mpr hother) heq

theorem callsAt_eq_nil (h : Replay start made log before) (hplace : made.length ≤ place) :
    callsAt place log = [] := by
  rw [callsAt, List.map_eq_nil_iff, List.filter_eq_nil_iff]
  intro entry he heq
  have hlt := h.placed entry he
  rw [beq_iff_eq.mp heq] at hlt
  omega

theorem of_same (h : Replay start made log before)
    (hschemas : after.state.scene.schemas = before.state.scene.schemas)
    (hsupply : after.state.supply = before.state.supply)
    (hkeys : after.state.scene.nodes.keys = before.state.scene.nodes.keys)
    (hslots : ∀ node attr, after.state.scene.slot? node attr = before.state.scene.slot? node attr)
    (hcreated : after.output.created = before.output.created)
    (hfailures : after.output.failures = before.output.failures)
    (htagged : ∀ tag source, after.output.tags.find? tag = some source →
      source ∈ before.output.created) : Replay start made log after where
  schemas := hschemas.trans h.schemas
  supply := hsupply.trans h.supply
  keys := hkeys.trans h.keys
  declared := h.declared
  created := hcreated.trans h.created
  older := fun node hnode attr => (hslots node attr).trans (h.older node hnode attr)
  placed := h.placed
  held := fun place spec hspec attr => (hslots _ attr).trans (h.held place spec hspec attr)
  failures := by
    rw [hfailures]
    exact h.failures
  failing := by
    rw [hfailures, hcreated]
    exact h.failing
  tagged := by
    rw [hcreated]
    exact htagged

theorem idAt_not_mem_idsWith {made : Nat} (h : start.NextUnused (made + 1)) :
    start.idAt made ∉ idsWith start made := by
  intro hmem
  rcases List.mem_append.mp hmem with hold | hnew
  · exact h.absent made (by omega) hold
  · obtain ⟨other, hother, heq⟩ := List.mem_map.mp hnew
    exact h.distinct made (by omega) other (List.mem_range.mp hother) heq

theorem next_eq (h : Replay start made log before) :
    before.state.supply.next = start.idAt made.length := by
  rw [Supply.next, h.supply]
  rfl

theorem create (h : Replay start made log before) (hunused : start.NextUnused (made.length + 1))
    {spec : NodeSpec} {node : NodeId}
    (hcreate : Build.create LiveScene.host spec.type before = (.ok node, after)) :
    Replay start (made ++ [spec]) log after := by
  obtain ⟨hschema, name, rfl, rfl⟩ := create_cases hcreate
  have hfresh := idAt_not_mem_idsWith hunused
  have hne : ∀ place, place < made.length → start.idAt place ≠ start.idAt made.length := by
    intro place hplace heq
    exact hfresh (heq ▸ h.keys ▸ h.mem_keys_idAt hplace)
  have hslots : before.state.scene.freshSlots spec.type = start.scene.freshSlots spec.type := by
    unfold Scene.freshSlots
    rw [h.schemas]
  rw [h.next_eq]
  refine ⟨h.schemas, ?_, ?_, ?_, ?_, ?_, ?_, ?_, ?_, ?_, ?_⟩
  · simp [Supply.rest, h.supply, Nat.add_assoc]
  · rw [Scene.keys_addNode (h.keys ▸ hfresh), h.keys]
    simp [idsWith, List.range_succ]
  · intro other hother
    rcases List.mem_append.mp hother with hother | hother
    · exact h.declared other hother
    · rw [List.mem_singleton.mp hother, ← h.schemas]
      exact hschema
  · simp [h.created, List.range_succ]
  · intro other hother attr
    have hother' : other ≠ start.idAt made.length := fun heq =>
      hfresh (heq ▸ List.mem_append_left _ hother)
    rw [Scene.slot?_addNode, if_neg hother']
    exact h.older other hother attr
  · intro entry he
    rw [List.length_append]
    exact Nat.lt_add_right _ (h.placed entry he)
  · intro place other hother attr
    rw [Scene.slot?_addNode]
    rcases getElem?_concat_cases hother with ⟨hlt, hother⟩ | ⟨rfl, rfl⟩
    · rw [if_neg (hne place hlt)]
      exact h.held place other hother attr
    · -- no call was made for the new node, so it holds the defaults
      rw [if_pos rfl, hslots, ledgerAt, h.callsAt_eq_nil (Nat.le_refl _)]
      rfl
  · intro place other hother
    rcases getElem?_concat_cases hother with ⟨_, hother⟩ | ⟨rfl, rfl⟩
    · exact h.failures place other hother
    · rw [ledgerAt, h.callsAt_eq_nil (Nat.le_refl _)]
      refine List.filter_eq_nil_iff.mpr fun failure hfailure heq => hfresh ?_
      have hcreated := h.failing failure hfailure
      rw [beq_iff_eq.mp heq, h.created] at hcreated
      exact List.mem_append_right _ hcreated
  · exact fun failure hfailure => List.mem_append_left _ (h.failing failure hfailure)
  · exact fun tag source htag => List.mem_append_left _ (h.tagged tag source htag)

theorem placed_concat (h : Replay start made log before) (hplace : place < made.length)
    (call : Call) : ∀ entry ∈ log ++ [(place, call)], entry.1 < made.length := by
  intro entry he
  rcases List.mem_append.mp he with he | he
  · exact h.placed entry he
  · exact List.mem_singleton.mp he ▸ hplace

theorem accept (h : Replay start made log before) {spec : NodeSpec} (hspec : made[place]? = some spec)
    {call : Call} {attr : String} {slot : Slot}
    (htake : (ledgerAt start log place spec.type).take (start.idAt place) call =
      (ledgerAt start log place spec.type).accept call.order attr slot)
    (hslot : (before.state.scene.slot? (start.idAt place) attr).isSome) :
    Replay start made (log ++ [(place, call)]) { before with
      state.scene := before.state.scene.putSlot (start.idAt place) attr slot } := by
  have hplace := (List.getElem?_eq_some_iff.mp hspec).1
  obtain ⟨old, hold⟩ := Option.isSome_iff_exists.mp hslot
  have hothers : ∀ {node}, node ≠ start.idAt place → ∀ other,
      (before.state.scene.putSlot (start.idAt place) attr slot).slot? node other =
        before.state.scene.slot? node other := by
    intro node hne other
    rw [Scene.slot?_putSlot, if_neg fun heq => hne heq.1]
  refine ⟨h.schemas, h.supply, ?_, h.declared, h.created, ?_, h.placed_concat hplace call, ?_, ?_,
    h.failing, h.tagged⟩
  · exact (Table.keys_modify _ _ _).trans h.keys
  · intro node hnode other
    have hne : node ≠ start.idAt place := fun heq => h.not_mem_idAt hplace (heq ▸ hnode)
    exact (hothers hne other).trans (h.older node hnode other)
  · intro other spec' hspec' attr'
    by_cases heq : other = place
    · subst heq
      obtain rfl := Option.some.inj (hspec.symm.trans hspec')
      rw [ledgerAt_concat_self, htake, Scene.slot?_putSlot, Ledger.accept, hold]
      by_cases hattr : attr' = attr
      · simp [hattr]
      · simpa [hattr] using h.held other spec hspec attr'
    · have hother := (List.getElem?_eq_some_iff.mp hspec').1
      rw [ledgerAt_concat_of_ne heq, hothers fun hids => heq (h.idAt_inj hother hplace hids)]
      exact h.held other spec' hspec' attr'
  · intro other spec' hspec'
    by_cases heq : other = place
    · subst heq
      obtain rfl := Option.some.inj (hspec.symm.trans hspec')
      rw [ledgerAt_concat_self, htake, Ledger.refusals_accept]
      exact h.failures other spec hspec
    · rw [ledgerAt_concat_of_ne heq]
      exact h.failures other spec' hspec'

theorem refuse (h : Replay start made log before) {spec : NodeSpec} (hspec : made[place]? = some spec)
    {call : Call} {cause : HostError}
    (htake : (ledgerAt start log place spec.type).take (start.idAt place) call =
      (ledgerAt start log place spec.type).refuse call.order cause) :
    Replay start made (log ++ [(place, call)])
      (fail (start.idAt place) call.order.key cause before) := by
  have hplace := (List.getElem?_eq_some_iff.mp hspec).1
  refine ⟨h.schemas, h.supply, h.keys, h.declared, h.created, h.older, h.placed_concat hplace call,
    ?_, ?_, ?_, h.tagged⟩
  · intro other spec' hspec' attr'
    by_cases heq : other = place
    · subst heq
      obtain rfl := Option.some.inj (hspec.symm.trans hspec')
      rw [ledgerAt_concat_self, htake]
      exact h.held other spec hspec attr'
    · rw [ledgerAt_concat_of_ne heq]
      exact h.held other spec' hspec' attr'
  · intro other spec' hspec'
    have hfail : (fail (start.idAt place) call.order.key cause before).output.failures =
        before.output.failures ++ [⟨start.idAt place, call.order.key, cause⟩] := rfl
    rw [hfail, List.filter_append]
    by_cases heq : other = place
    · subst heq
      obtain rfl := Option.some.inj (hspec.symm.trans hspec')
      rw [ledgerAt_concat_self, htake, Ledger.refusals_refuse, h.failures other spec hspec]
      simp
    · have hother := (List.getElem?_eq_some_iff.mp hspec').1
      have hne : start.idAt place ≠ start.idAt other := fun hids =>
        heq (h.idAt_inj hother hplace hids.symm)
      rw [ledgerAt_concat_of_ne heq, h.failures other spec' hspec']
      simp [hne]
  · intro failure hfailure
    rcases List.mem_append.mp hfailure with hfailure | hfailure
    · exact h.failing failure hfailure
    · rw [List.mem_singleton.mp hfailure]
      exact h.created ▸ List.mem_map_of_mem (List.mem_range.mpr hplace)

/-- An order changes the ledger of its node, and the node and the failures with it. -/
theorem order (h : Replay start made log before) (hplace : place < made.length) {order : Order}
    {present : List NodeId}
    (hpresent : ∀ key attr value held, order = .write key attr value →
      offer present (start.idAt place) attr held value =
        offer (idsWith start made.length) (start.idAt place) attr held value)
    (hrun : order.run (start.idAt place) before = (.ok (), after)) :
    Replay start made (log ++ [(place, ⟨order, present⟩)]) after := by
  obtain ⟨spec, hspec⟩ : ∃ spec, made[place]? = some spec := ⟨_, List.getElem?_eq_getElem hplace⟩
  have hset : ∀ {key attr value}, order = .write key attr value →
      before.state.scene.set (start.idAt place) attr value =
        (offer present (start.idAt place) attr ((ledgerAt start log place spec.type).held attr)
          value).map (before.state.scene.putSlot (start.idAt place) attr) := by
    intro key attr value horder
    rw [set_eq_offer (h.mem_keys_idAt hplace), hpresent key attr value _ horder,
      h.held place spec hspec, h.keys]
  rcases Order.run_cases hrun with
    ⟨key, attr, value, scene, rfl, hok, rfl⟩ | ⟨cause, hrefused, rfl⟩
  · obtain ⟨slot, hslot, rfl⟩ := except_map_eq_ok_iff.mp ((hset rfl).symm.trans hok)
    refine h.accept hspec (Ledger.take_of_ok hslot) ?_
    rw [h.held place spec hspec]
    obtain ⟨old, hold, _⟩ := effect_of_offer hslot
    rw [hold]
    rfl
  · have htake : (ledgerAt start log place spec.type).take (start.idAt place) ⟨order, present⟩ =
        (ledgerAt start log place spec.type).refuse order cause := by
      cases order with
      | unlisted id =>
        cases hrefused
        rfl
      | write key attr value =>
        exact Ledger.take_of_error (except_map_eq_error_iff.mp ((hset rfl).symm.trans hrefused))
    exact h.refuse hspec htake

end Replay

end Build

end ShaderMigration
