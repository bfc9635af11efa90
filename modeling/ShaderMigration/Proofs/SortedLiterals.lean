import Mathlib
import ShaderMigration.NodeSpec.Document
import ShaderMigration.Proofs.SortedDocuments

-- The lemmas on floats that decide their equality come with the whole library only.

namespace ShaderMigration

open Data (sorted sortedItems Layout Fields)

namespace Binary64

theorem same_self (x : Float) : same x x = true := by
  rw [same, Float.isNaN_eq_decide_eq_nan, Bool.and_self, Bool.or_eq_true, Float.beq_self_iff,
    decide_eq_true_iff]
  exact (em (x = Float.nan)).symm

end Binary64

namespace Scalar

theorem ofPayload?_sorted {s : Scalar} (h : ∀ x ∈ s.floats, Binary64.isFinite x = true) :
    ofPayload? s.kind s.payload.sorted = some s := by
  cases s with
  | bool | string => rfl
  | int n | enumeration n => simp [payload, sorted, kind, ofPayload?, int64?_toInt]
  | float x =>
    have hx : Binary64.isFinite x = true := h x List.mem_cons_self
    simp [payload, sorted, kind, ofPayload?, Data.number?, hx]
  | vector3 v =>
    obtain ⟨x, y, z⟩ := v
    simp only [floats, List.forall_mem_cons] at h
    have hsorted : (payload (.vector3 ⟨x, y, z⟩)).sorted = .record
        [("x", (Data.float x).sorted), ("y", (Data.float y).sorted), ("z", (Data.float z).sorted)] := rfl
    rw [hsorted]
    simp [sorted, h, kind, ofPayload?, Vec3.ofData?, Layout.read?, Layout.ofMembers?, Layout.field?,
      Layout.ofFields, Fields.required, Entries.find?, Data.number?]
  | color c =>
    obtain ⟨r, g, b⟩ := c
    simp only [floats, List.forall_mem_cons] at h
    have hsorted : (payload (.color ⟨r, g, b⟩)).sorted = .record
        [("b", (Data.float b).sorted), ("g", (Data.float g).sorted), ("r", (Data.float r).sorted)] := rfl
    rw [hsorted]
    simp [sorted, h, kind, ofPayload?, Color.ofData?, Layout.read?, Layout.ofMembers?, Layout.field?,
      Layout.ofFields, Fields.required, Entries.find?, Data.number?]

theorem toData_sorted (s : Scalar) : s.toData.sorted = .record [(s.kind.word, s.payload.sorted)] := rfl

end Scalar

namespace Plug

theorem ofData?_sorted (plug : Plug) : ofData? plug.toData.sorted = some plug := by
  obtain ⟨node, channel⟩ := plug
  have hsorted : (toData ⟨node, channel⟩).sorted =
      .record ((channel.map fun c => ("channel", .text c)).toList ++ [("node", .text node.text)]) := by
    cases channel <;> rfl
  rw [hsorted]
  cases channel <;>
    simp [ofData?, Layout.read?, Layout.ofMembers?, Layout.field?, Layout.ofFields, Fields.required,
      Fields.defaulted, Entries.find?, NodeId.ofData?, Data.optional?, Data.text?, NodeId.ofText?_text]

/-- The members of a plug, of which there are one or two, and which are no scalar. -/
theorem toData_sorted (plug : Plug) : ∃ members, plug.toData.sorted = .record members ∧
    members.length ≠ 3 ∧ Entries.find? "type" members = none ∧
      Scalar.ofData? (.record members) = none := by
  obtain ⟨node, channel⟩ := plug
  cases channel <;> exact ⟨_, rfl, Nat.ne_of_beq_eq_false rfl, rfl, rfl⟩

end Plug

namespace Value

theorem namedTriple?_eq_none {names : List String} {members : List (String × Data)}
    (h : members.length ≠ 3) : namedTriple? names members = none := if_neg h

theorem number?_sorted (v : Value) : v.toData.sorted.number? = none := by
  cases v <;> rfl

theorem triple?_sortedItems : ∀ items : List Value, triple? (sortedItems (toDataItems items)) = none
  | [] | [_] | [_, _] | _ :: _ :: _ :: _ :: _ => rfl
  | [a, b, c] => by simp [toDataItems, sortedItems, triple?, number?_sorted]

mutual

/-- What is written for a value is read as a literal of the same value. -/
theorem ofLiteral_sorted : ∀ {v : Value}, (∀ x ∈ v.floats, Binary64.isFinite x = true) →
    ofLiteral v.toData.sorted = .ok v
  | scalar payload, h => by
    rw [floats] at h
    have hread : Scalar.ofData? (.record [(payload.kind.word, payload.payload.sorted)]) =
        some payload := by
      rw [Scalar.ofData?, Scalar.ofWord?_word, Option.bind_some, Scalar.ofPayload?_sorted h]
    rw [toData, Scalar.toData_sorted, ofLiteral]
    simp [namedTriple?_eq_none, ofData?, hread]
  | connection plug, _ => by
    obtain ⟨members, hmembers, hlength, _, hscalar⟩ := plug.toData_sorted
    have hread : Plug.ofData? (.record members) = some plug := hmembers ▸ plug.ofData?_sorted
    rw [toData, hmembers, ofLiteral]
    simp [namedTriple?_eq_none hlength, ofData?, hscalar, hread]
  | array items, h => by
    rw [floats] at h
    rw [toData, sorted, ofLiteral, triple?_sortedItems, ofLiterals_sorted h]
    rfl

theorem ofLiterals_sorted : ∀ {items : List Value},
    (∀ x ∈ floatsOf items, Binary64.isFinite x = true) →
      ofLiterals (sortedItems (toDataItems items)) = .ok items
  | [], _ => rfl
  | item :: rest, h => by
    obtain ⟨hitem, hrest⟩ := List.forall_mem_append.mp h
    rw [toDataItems, sortedItems, ofLiterals, ofLiteral_sorted hitem, ofLiterals_sorted hrest]

end

theorem hasMember_type_sorted (v : Value) : NodeSpec.hasMember "type" v.toData.sorted = false := by
  cases v with
  | scalar payload => cases payload <;> rfl
  | connection plug =>
    obtain ⟨members, hmembers, _, htype, _⟩ := plug.toData_sorted
    rw [toData, hmembers, NodeSpec.hasMember, htype]
    rfl
  | array items => rfl

end Value

theorem Scalar.alike_self (s : Scalar) : s.alike s = true := by
  cases s <;> simp [alike, Vec3.alike, Color.alike, Binary64.same_self]

mutual

theorem Value.alike_self : ∀ v : Value, v.alike v = true
  | .scalar payload => by rw [Value.alike, payload.alike_self]
  | .connection plug => by rw [Value.alike, beq_self_eq_true]
  | .array items => by rw [Value.alike, Value.alikeItems_self items]

theorem Value.alikeItems_self : ∀ items : List Value, Value.alikeItems items items = true
  | [] => rfl
  | item :: rest => by
    rw [Value.alikeItems, Value.alike_self item, Value.alikeItems_self rest, Bool.true_and]

end

end ShaderMigration
