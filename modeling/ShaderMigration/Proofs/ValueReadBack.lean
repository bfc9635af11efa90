import ShaderMigration.Proofs.JsonRoundTrip
import ShaderMigration.Proofs.OptionalLists
import ShaderMigration.Table.Document
import ShaderMigration.Value.Document

namespace ShaderMigration

namespace Entries

variable {κ α : Type} [DecidableEq κ]

theorem put_of_not_mem {key : κ} {value : α} {entries : List (κ × α)} (h : key ∉ keys entries) :
    put key value entries = entries ++ [(key, value)] := by
  induction entries with
  | nil => rfl
  | cons entry rest ih =>
    obtain ⟨k, a⟩ := entry
    simp only [keys_cons, List.mem_cons, not_or] at h
    rw [put, if_neg (Ne.symm h.1), ih h.2, List.cons_append]

theorem foldl_put {pairs entries : List (κ × α)} (h : (keys (entries ++ pairs)).Nodup) :
    pairs.foldl (fun found pair => put pair.1 pair.2 found) entries = entries ++ pairs := by
  induction pairs generalizing entries with
  | nil => simp
  | cons pair rest ih =>
    have hnew : pair.1 ∉ keys entries := by
      intro hm
      have hnodup := List.nodup_append.mp (by simpa [keys] using h :
        ((keys entries) ++ (pair.1 :: keys rest)).Nodup)
      exact hnodup.2.2 _ hm _ List.mem_cons_self rfl
    rw [List.foldl_cons, put_of_not_mem hnew, ih (by simpa using h), List.append_assoc]
    rfl

/-- Entries without a repeated key are entered as they stand. -/
theorem ofPairs_of_nodup {entries : List (κ × α)} (h : (keys entries).Nodup) :
    ofPairs entries = entries := foldl_put h

end Entries

namespace Table

theorem ofPairs_entries {κ α : Type} [DecidableEq κ] (table : Table κ α) :
    ofPairs table.entries = table := Table.ext (Entries.ofPairs_of_nodup table.nodup)

theorem ofData?_toData {α : Type} {read : Data → Option α} {write : α → Data}
    {table : Table String α} (h : ∀ entry ∈ table.entries, read (write entry.2) = some entry.2) :
    ofData? read (table.toData write) = some table := by
  have hentries : (table.entries.map fun entry => (entry.1, write entry.2)).mapM
      (fun member => (read member.2).map fun a => (member.1, a)) = some table.entries :=
    mapM_map_eq_some fun entry he => by simp [h entry he]
  simp [ofData?, toData, Data.members?, hentries, ofPairs_entries]

end Table

namespace NodeId

theorem joinGroups?_groups {a b c d e : List Char} (ha : a.length = 8) (hb : b.length = 4)
    (hc : c.length = 4) (hd : d.length = 4) (he : e.length = 12) :
    joinGroups? (a ++ '-' :: b ++ '-' :: c ++ '-' :: d ++ '-' :: e) =
      some (a ++ b ++ c ++ d ++ e) := by
  simp [joinGroups?, List.drop_append, List.drop_eq_nil_of_le, ha, hb, hc, hd, he]

theorem joinGroups?_hyphenate {cs : List Char} (h : cs.length = 32) :
    joinGroups? (hyphenate cs) = some cs := by
  have hgroups : cs.take 8 ++ (cs.drop 8).take 4 ++ (cs.drop 12).take 4 ++ (cs.drop 16).take 4 ++
      cs.drop 20 = cs := by
    have hdrop : ∀ n m, (cs.drop n).take m ++ cs.drop (n + m) = cs.drop n := by
      intro n m
      rw [← List.drop_drop, List.take_append_drop]
    rw [List.append_assoc, hdrop 16 4, List.append_assoc, hdrop 12 4, List.append_assoc, hdrop 8 4,
      List.take_append_drop]
  rw [hyphenate, joinGroups?_groups (by simp [h]) (by simp [h]) (by simp [h]) (by simp [h])
    (by simp [h]), hgroups]

theorem ofText?_text (id : NodeId) : ofText? id.text = some id := by
  have hlength : id.digits.length = 32 := Hex.length_write 32 _
  have hhyphenated : (hyphenate id.digits).length = 36 := by
    simp [hyphenate, hlength]
  have hread : Hex.read? id.digits = some id.word.toNat := by
    rw [digits, Hex.read?_write, Nat.mod_eq_of_lt]
    exact Nat.lt_of_lt_of_eq id.word.isLt (by decide)
  have hword : ofNat id.word.toNat = id := by simp [ofNat]
  rw [ofText?, text, String.toList_ofList, unwrap?, if_neg (by omega), if_pos hhyphenated,
    joinGroups?_hyphenate hlength, Option.bind_some, ofDigits?, if_pos hlength, hread,
    Option.map_some, hword]

theorem ofData?_toData (id : NodeId) : ofData? id.toData = some id := by
  simp only [ofData?, toData, Data.text?, Option.bind_some, ofText?_text]

end NodeId

open Data (Layout Fields)

theorem Vec3.ofData?_toData (v : Vec3) : ofData? v.toData = some v := by
  simp [ofData?, toData, Layout.read?, Layout.ofMembers?, Layout.field?, Layout.ofFields,
    Fields.required, Entries.find?, Data.number?]

theorem Color.ofData?_toData (c : Color) : ofData? c.toData = some c := by
  simp [ofData?, toData, Layout.read?, Layout.ofMembers?, Layout.field?, Layout.ofFields,
    Fields.required, Entries.find?, Data.number?]

theorem Plug.ofData?_toData (plug : Plug) : ofData? plug.toData = some plug := by
  obtain ⟨node, channel⟩ := plug
  cases channel <;>
    simp [ofData?, toData, Layout.read?, Layout.ofMembers?, Layout.field?, Layout.ofFields,
      Fields.required, Fields.defaulted, Entries.find?, NodeId.ofData?_toData, Data.optional?,
      Data.text?]

/-- A list is a plug only if its first item is the text of an id. -/
theorem Plug.ofData?_list {items : List Data} (h : ∀ item ∈ items, item.text? = none) :
    ofData? (.list items) = none := by
  have hnode : ∀ fields, Layout.ofItems? (.ofFields ["node", "channel"]) items = some fields →
      fields.required "node" NodeId.ofData? = none := by
    intro fields hfields
    unfold Layout.ofItems? at hfields
    split at hfields
    next => cases hfields
    next =>
      obtain rfl := Option.some.inj hfields
      cases items with
      | nil => rfl
      | cons item rest =>
        simp [Fields.required, Layout.ofFields, Entries.find?, NodeId.ofData?, h item (by simp)]
  unfold ofData?
  rw [Layout.read?]
  cases hfields : Layout.ofItems? (.ofFields ["node", "channel"]) items with
  | none => rfl
  | some fields => simp [hnode fields hfields]

namespace Scalar

theorem int64?_toInt (n : Int64) : (Data.int n.toInt).int64? = some n := by
  rw [Data.int64?, if_pos ⟨n.minValue_le_toInt, n.toInt_le⟩, Int64.ofInt_toInt]

theorem ofPayload?_payload (s : Scalar) : ofPayload? s.kind s.payload = some s := by
  cases s with
  | bool | float | string => rfl
  | int n | enumeration n => simp [ofPayload?, kind, payload, int64?_toInt]
  | vector3 v => simp [ofPayload?, kind, payload, Vec3.ofData?_toData]
  | color c => simp [ofPayload?, kind, payload, Color.ofData?_toData]

theorem ofWord?_word (kind : ScalarKind) : ScalarKind.ofWord? kind.word = some kind := by
  cases kind <;> rfl

theorem ofData?_toData (s : Scalar) : ofData? s.toData = some s := by
  rw [toData, ofData?, ofWord?_word, Option.bind_some, ofPayload?_payload]

end Scalar

theorem Scalar.ofData?_plug (plug : Plug) : Scalar.ofData? plug.toData = none := by
  obtain ⟨node, channel⟩ := plug
  cases channel <;> rfl

namespace Value

theorem text?_toData (v : Value) : v.toData.text? = none := by
  cases v <;> rfl

theorem toDataItems_eq_map (items : List Value) : toDataItems items = items.map toData := by
  induction items with
  | nil => rfl
  | cons item rest ih => rw [toDataItems, ih, List.map_cons]

mutual

theorem ofData?_toData : ∀ v : Value, ofData? v.toData = some v
  | scalar payload => by
    have hscalar := Scalar.ofData?_toData payload
    rw [Scalar.toData] at hscalar
    rw [toData, Scalar.toData, ofData?, hscalar]
    simp
  | connection plug => by
    have hplug := Plug.ofData?_toData plug
    have hscalar := Scalar.ofData?_plug plug
    obtain ⟨members, hmembers⟩ : ∃ members, plug.toData = .record members := ⟨_, rfl⟩
    rw [hmembers] at hplug hscalar
    rw [toData, hmembers, ofData?, hscalar]
    · simp [hplug]
    · simp
  | array items => by
    have htexts : ∀ item ∈ toDataItems items, item.text? = none := by
      intro item hm
      rw [toDataItems_eq_map] at hm
      obtain ⟨v, _, rfl⟩ := List.mem_map.mp hm
      exact text?_toData v
    rw [toData, ofData?, Plug.ofData?_list htexts, ofDataItems?_toDataItems items]
    rfl

theorem ofDataItems?_toDataItems : ∀ items : List Value, ofDataItems? (toDataItems items) = some items
  | [] => rfl
  | item :: rest => by
    rw [toDataItems, ofDataItems?, ofData?_toData item, ofDataItems?_toDataItems rest]

end

end Value

def Scalar.floats : Scalar → List Float
  | .float x => [x]
  | .vector3 v => [v.x, v.y, v.z]
  | .color c => [c.r, c.g, c.b]
  | _ => []

namespace Value

mutual

/-- Every float in a value, at any depth, in order. -/
def floats : Value → List Float
  | scalar payload => payload.floats
  | connection _ => []
  | array items => floatsOf items

def floatsOf : List Value → List Float
  | [] => []
  | item :: rest => item.floats ++ floatsOf rest

end

open Json (Legible legible_text legible_float_iff legible_int_iff legible_list_iff legible_record_iff)

theorem floatsOf_eq_flatMap (items : List Value) : floatsOf items = items.flatMap floats := by
  induction items with
  | nil => rfl
  | cons item rest ih => rw [floatsOf, ih, List.flatMap_cons]

variable {P : Float → Prop} [DecidablePred P]

theorem legible_toInt (n : Int64) : Legible P (.int n.toInt) := by
  have hmax := n.toInt_lt
  exact legible_int_iff.mpr ⟨n.minValue_le_toInt, Int.lt_trans hmax (by decide)⟩

theorem legible_payload {s : Scalar} (h : ∀ x ∈ s.floats, P x) : Legible P s.payload := by
  cases s with
  | bool => rfl
  | int n | enumeration n => exact legible_toInt n
  | float x => exact legible_float_iff.mpr (h x (by simp [Scalar.floats]))
  | vector3 v | color c =>
    simpa [Scalar.payload, Vec3.toData, Color.toData, legible_record_iff, legible_float_iff,
      Scalar.floats] using h
  | string s => exact legible_text s

theorem legible_plug (plug : Plug) : Legible P plug.toData := by
  obtain ⟨node, channel⟩ := plug
  cases channel <;> simp [Plug.toData, NodeId.toData, legible_record_iff, legible_text]

/-- What holds of the floats of a value holds of those of its document. -/
theorem legible_toData : ∀ {v : Value}, (∀ x ∈ v.floats, P x) → Legible P v.toData
  | scalar payload, h => by
    rw [floats] at h
    simpa [toData, Scalar.toData, legible_record_iff] using legible_payload h
  | connection plug, _ => by
    rw [toData]
    exact legible_plug plug
  | array items, h => by
    rw [toData, toDataItems_eq_map, legible_list_iff]
    intro d hd
    obtain ⟨item, hitem, rfl⟩ := List.mem_map.mp hd
    rw [floats, floatsOf_eq_flatMap] at h
    exact legible_toData fun x hx => h x (List.mem_flatMap.mpr ⟨item, hitem, hx⟩)

end Value

theorem Table.legible_toData {P : Float → Prop} [DecidablePred P] {α : Type} {write : α → Data}
    {table : Table String α} (h : ∀ a ∈ table.values, Json.Legible P (write a)) :
    Json.Legible P (table.toData write) := by
  rw [toData, Json.legible_record_iff]
  intro member hm
  obtain ⟨entry, he, rfl⟩ := List.mem_map.mp hm
  exact h entry.2 (List.mem_map.mpr ⟨entry, he, rfl⟩)

end ShaderMigration
