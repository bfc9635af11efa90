import ShaderMigration.Proofs.OfferedValues
import Mathlib.Data.List.Induction

namespace ShaderMigration

namespace Build

/-- An order, and the nodes that are there when it is made. -/
structure Call where
  order : Order
  present : List NodeId

/-- The attributes of a node, and how its orders were answered: by the value that the attribute shows
from then on, or by a refusal. -/
structure Ledger where
  held : String → Option Slot
  answers : List (Order × Except HostError Value) := []

namespace Ledger

def accept (ledger : Ledger) (order : Order) (attr : String) (slot : Slot) : Ledger where
  held := fun other => if other = attr then some slot else ledger.held other
  answers := ledger.answers ++ [(order, .ok slot.live)]

def refuse (ledger : Ledger) (order : Order) (cause : HostError) : Ledger :=
  { ledger with answers := ledger.answers ++ [(order, .error cause)] }

def take (node : NodeId) (ledger : Ledger) (call : Call) : Ledger :=
  match call.order with
  | .unlisted id => ledger.refuse (.unlisted id) (.noSuchAttribute node id)
  | .write key attr value =>
    match offer call.present node attr (ledger.held attr) value with
    | .ok slot => ledger.accept (.write key attr value) attr slot
    | .error cause => ledger.refuse (.write key attr value) cause

/-- The ledger of a node that starts with attributes and gets orders. -/
def after (node : NodeId) (held : String → Option Slot) (calls : List Call) : Ledger :=
  calls.foldl (take node) { held }

theorem after_concat (node : NodeId) (held : String → Option Slot) (calls : List Call)
    (call : Call) : after node held (calls ++ [call]) = take node (after node held calls) call := by
  rw [after, List.foldl_append]
  rfl

theorem take_of_ok {node : NodeId} {ledger : Ledger} {key attr : String} {value : Value}
    {present : List NodeId} {slot : Slot}
    (h : offer present node attr (ledger.held attr) value = .ok slot) :
    ledger.take node ⟨.write key attr value, present⟩ =
      ledger.accept (.write key attr value) attr slot := by
  simp only [take, h]

theorem take_of_error {node : NodeId} {ledger : Ledger} {key attr : String} {value : Value}
    {present : List NodeId} {cause : HostError}
    (h : offer present node attr (ledger.held attr) value = .error cause) :
    ledger.take node ⟨.write key attr value, present⟩ =
      ledger.refuse (.write key attr value) cause := by
  simp only [take, h]

def refusals (node : NodeId) (ledger : Ledger) : List BuildFailure :=
  ledger.answers.filterMap fun (order, answer) =>
    match answer with
    | .ok _ => none
    | .error cause => some ⟨node, order.key, cause⟩

theorem refusals_accept (node : NodeId) (ledger : Ledger) (order : Order) (attr : String)
    (slot : Slot) : (ledger.accept order attr slot).refusals node = ledger.refusals node := by
  simp [refusals, accept]

theorem refusals_refuse (node : NodeId) (ledger : Ledger) (order : Order) (cause : HostError) :
    (ledger.refuse order cause).refusals node = ledger.refusals node ++ [⟨node, order.key, cause⟩] := by
  simp [refusals, refuse]

def lastTaken? (attr : String) (ledger : Ledger) : Option Value :=
  (ledger.answers.filterMap fun (order, answer) =>
    if order.attr? = some attr then answer.toOption else none).getLast?

theorem lastTaken?_refuse (ledger : Ledger) (order : Order) (cause : HostError) (attr : String) :
    (ledger.refuse order cause).lastTaken? attr = ledger.lastTaken? attr := by
  simp [lastTaken?, refuse, Except.toOption]

theorem lastTaken?_accept_self (ledger : Ledger) (key attr : String) (value : Value) (slot : Slot) :
    (ledger.accept (.write key attr value) attr slot).lastTaken? attr = some slot.live := by
  simp [lastTaken?, accept, Order.attr?, Except.toOption]

theorem lastTaken?_accept_of_ne {attr other : String} (h : attr ≠ other) (ledger : Ledger)
    (key : String) (value : Value) (slot : Slot) :
    (ledger.accept (.write key other value) other slot).lastTaken? attr =
      ledger.lastTaken? attr := by
  simp [lastTaken?, accept, Order.attr?, Ne.symm h]

/-- What an attribute shows is what it took last, or what it showed from the start. -/
theorem live_held_after (node : NodeId) (held : String → Option Slot) (calls : List Call)
    (attr : String) : ((after node held calls).held attr).map Slot.live =
      (held attr).map fun slot =>
        ((after node held calls).lastTaken? attr).getD slot.live := by
  induction calls using List.reverseRecOn with
  | nil => rfl
  | append_singleton calls call ih =>
    have hkeep : ∀ order cause,
        (((after node held calls).refuse order cause).held attr).map Slot.live =
          (held attr).map fun slot =>
            (((after node held calls).refuse order cause).lastTaken? attr).getD slot.live := by
      intro order cause
      rw [lastTaken?_refuse]
      exact ih
    rw [after_concat]
    obtain ⟨order, present⟩ := call
    cases order with
    | unlisted id => exact hkeep _ _
    | write key other value =>
      cases hoffer : offer present node other ((after node held calls).held other) value with
      | error cause =>
        rw [take_of_error hoffer]
        exact hkeep _ _
      | ok slot =>
        rw [take_of_ok hoffer]
        by_cases hattr : attr = other
        · subst hattr
          -- what took the value was there from the start
          obtain ⟨old, hold, _⟩ := effect_of_offer hoffer
          rw [hold] at ih
          obtain ⟨first, hfirst, _⟩ := Option.map_eq_some_iff.mp ih.symm
          rw [lastTaken?_accept_self, hfirst]
          simp [accept]
        · rw [lastTaken?_accept_of_ne hattr]
          simpa [accept, hattr] using ih

/-- Every order is answered once, in its turn. -/
theorem map_fst_answers_after (node : NodeId) (held : String → Option Slot) (calls : List Call) :
    (after node held calls).answers.map Prod.fst = calls.map Call.order := by
  induction calls using List.reverseRecOn with
  | nil => rfl
  | append_singleton calls call ih =>
    rw [after_concat, List.map_append, ← ih]
    obtain ⟨order, present⟩ := call
    cases order with
    | unlisted id => simp [take, refuse]
    | write key attr value =>
      cases hoffer : offer present node attr ((after node held calls).held attr) value with
      | error cause =>
        rw [take_of_error hoffer]
        simp [refuse]
      | ok slot =>
        rw [take_of_ok hoffer]
        simp [accept]

theorem fit_of_held_after {node : NodeId} {held : String → Option Slot} {calls : List Call}
    {attr : String} {slot : Slot} (h : (after node held calls).held attr = some slot) :
    ∃ first, held attr = some first ∧ ∀ value result,
      Scene.fit slot.value value = .ok result ↔ Scene.fit first.value value = .ok result := by
  induction calls using List.reverseRecOn generalizing attr slot with
  | nil => exact ⟨slot, h, fun _ _ => Iff.rfl⟩
  | append_singleton calls call ih =>
    rw [after_concat] at h
    obtain ⟨order, present⟩ := call
    cases order with
    | unlisted id => exact ih h
    | write key other value =>
      cases hoffer : offer present node other ((after node held calls).held other) value with
      | error cause =>
        rw [take_of_error hoffer] at h
        exact ih h
      | ok taken =>
        rw [take_of_ok hoffer] at h
        by_cases hattr : attr = other
        · subst hattr
          obtain rfl : taken = slot := by simpa [accept] using h
          obtain ⟨old, hold, _, hkept⟩ := effect_of_offer hoffer
          obtain ⟨first, hfirst, hfit⟩ := ih hold
          exact ⟨first, hfirst, fun _ _ => (hkept _ _).trans (hfit _ _)⟩
        · exact ih (by simpa [accept, hattr] using h)

/-- When no stored value holds a plug, the plugs of a slot are those of a connection it took. -/
theorem input_of_held_after {node : NodeId} {held : String → Option Slot} {calls : List Call}
    (hheld : ∀ attr slot, held attr = some slot → slot.plugs = [])
    (hvalues : ∀ call ∈ calls, ∀ key attr value, call.order = .write key attr value →
      value.plugs = [] ∨ ∃ source, value = .connection source)
    {attr : String} {slot : Slot} (h : (after node held calls).held attr = some slot) :
    slot.value.plugs = [] ∧ ∀ source, slot.input = some source →
      ∃ call ∈ calls, ∃ key, call.order = .write key attr (.connection source) := by
  -- on the orders from the last one, which decides what it writes and leaves all else
  induction calls using List.reverseRecOn generalizing attr slot with
  | nil =>
    have hnone := List.append_eq_nil_iff.mp (hheld attr slot h)
    refine ⟨hnone.1, fun source hinput => ?_⟩
    rw [hinput] at hnone
    cases hnone.2
  | append_singleton calls call ih =>
    have hold := fun {attr slot} => @ih
      (fun call hcall => hvalues call (List.mem_append_left _ hcall)) attr slot
    have hkeep : (after node held calls).held attr = some slot → slot.value.plugs = [] ∧
        ∀ source, slot.input = some source →
          ∃ asked ∈ calls ++ [call], ∃ key, asked.order = .write key attr (.connection source) := by
      intro hslot
      obtain ⟨hvalue, hinput⟩ := hold hslot
      refine ⟨hvalue, fun source hsource => ?_⟩
      obtain ⟨asked, hasked, hkey⟩ := hinput source hsource
      exact ⟨asked, List.mem_append_left _ hasked, hkey⟩
    rw [after_concat] at h
    obtain ⟨order, present⟩ := call
    cases order with
    | unlisted id => exact hkeep h
    | write key other value =>
      cases hoffer : offer present node other ((after node held calls).held other) value with
      | error cause =>
        rw [take_of_error hoffer] at h
        exact hkeep h
      | ok taken =>
        rw [take_of_ok hoffer] at h
        by_cases hattr : attr = other
        · subst hattr
          obtain rfl : taken = slot := by simpa [accept] using h
          obtain ⟨old, hheld, ⟨source, rfl, rfl⟩ | ⟨hvalue, fitted, hfit, rfl⟩⟩ := offer_cases hoffer
          · refine ⟨(hold hheld).1, fun plug hplug => ?_⟩
            obtain rfl := Option.some.inj hplug
            exact ⟨_, List.mem_append_right _ (List.mem_singleton.mpr rfl), key, rfl⟩
          · have hfree := (hvalues _ (List.mem_append_right _ (List.mem_singleton.mpr rfl)) key attr
              value rfl).resolve_right fun hsome => hsome.elim hvalue
            exact ⟨List.subset_nil.mp (hfree ▸ Scene.plugs_of_fit hfit), by simp⟩
        · exact hkeep (by simpa [accept, hattr] using h)

end Ledger

/-- What an answer says of its order: an input that is not listed is refused, and a value that was
taken shows as it comes to in the kind of the attribute. -/
def Order.Answered (node : NodeId) (held : String → Option Slot) :
    Order → Except HostError Value → Prop
  | unlisted id, answer => answer = .error (.noSuchAttribute node id)
  | write _ attr value, answer => ∀ shown, answer = .ok shown →
      ∃ slot, held attr = some slot ∧ effect slot.value value = .ok shown

theorem Ledger.answered_after {node : NodeId} {held : String → Option Slot} {calls : List Call}
    {order : Order} {answer : Except HostError Value}
    (h : (order, answer) ∈ (after node held calls).answers) : order.Answered node held answer := by
  induction calls using List.reverseRecOn with
  | nil => cases h
  | append_singleton calls call ih =>
    rw [after_concat] at h
    obtain ⟨asked, present⟩ := call
    cases asked with
    | unlisted id =>
      rcases List.mem_append.mp h with h | h
      · exact ih h
      · obtain ⟨rfl, rfl⟩ := Prod.mk.inj (List.mem_singleton.mp h)
        exact rfl
    | write key attr value =>
      cases hoffer : offer present node attr ((after node held calls).held attr) value with
      | error cause =>
        rw [take_of_error hoffer] at h
        rcases List.mem_append.mp h with h | h
        · exact ih h
        · obtain ⟨rfl, rfl⟩ := Prod.mk.inj (List.mem_singleton.mp h)
          exact fun shown heq => nomatch heq
      | ok slot =>
        rw [take_of_ok hoffer] at h
        rcases List.mem_append.mp h with h | h
        · exact ih h
        · obtain ⟨rfl, rfl⟩ := Prod.mk.inj (List.mem_singleton.mp h)
          intro shown heq
          obtain rfl := Except.ok.inj heq
          obtain ⟨old, hold, heffect, _⟩ := effect_of_offer hoffer
          obtain ⟨first, hfirst, hfit⟩ := fit_of_held_after hold
          refine ⟨first, hfirst, ?_⟩
          cases value with
          | connection source => exact heffect
          | scalar payload => exact (hfit _ _).mp heffect
          | array items => exact (hfit _ _).mp heffect

theorem Ledger.mem_refusals_of_unlisted {node : NodeId} {held : String → Option Slot}
    {calls : List Call} {id : String} (h : .unlisted id ∈ calls.map Call.order) :
    ⟨node, id, .noSuchAttribute node id⟩ ∈ (after node held calls).refusals node := by
  have horder : .unlisted id ∈ (after node held calls).answers.map Prod.fst :=
    map_fst_answers_after node held calls ▸ h
  obtain ⟨⟨order, answer⟩, hanswer, heq⟩ := List.mem_map.mp horder
  dsimp only at heq
  subst heq
  obtain rfl : answer = .error (.noSuchAttribute node id) := answered_after hanswer
  exact List.mem_filterMap.mpr ⟨_, hanswer, rfl⟩

end Build

end ShaderMigration
