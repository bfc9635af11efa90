import ShaderMigration.Proofs.SceneFloats

namespace ShaderMigration

open Binary64 (isFinite)
open Data (Layout Fields)

namespace Data

theorem printed_record (members : List (String × Data)) :
    (record members).printed = record (members.map fun member => (member.1, member.2.printed)) := by
  rw [printed, printedMembers_eq_map]

theorem printed_list (items : List Data) : (list items).printed = list (items.map printed) := by
  rw [printed, printedItems_eq_map]

theorem number?_printed (x : Float) :
    (float x).printed.number? = if isFinite x = true then some x else none := by
  rw [printed]
  split <;> rfl

end Data

theorem Table.ofData?_eq_none {α : Type} {read : Data → Option α} {write : α → Data}
    {table : Table String α} {a : α} (hm : a ∈ table.values) (h : read (write a).printed = none) :
    ofData? read (table.toData write).printed = none := by
  obtain ⟨entry, he, rfl⟩ := List.mem_map.mp hm
  rw [toData, Data.printed_record, ofData?, Data.members?, Option.bind_some, List.map_map,
    mapM_eq_none (List.mem_map.mpr ⟨entry, he, rfl⟩) (by simp [h])]
  rfl

theorem Data.triple_printed {α : Type} {make : Float → Float → Float → α} {a b c : Float}
    (h : ∃ x ∈ [a, b, c], isFinite x = false) :
    (do
      return make (← (float a).printed.number?) (← (float b).printed.number?)
        (← (float c).printed.number?)) = none := by
  obtain ⟨x, hx, hinfinite⟩ := h
  simp only [List.mem_cons, List.not_mem_nil, or_false] at hx
  rcases hx with rfl | rfl | rfl <;> simp [number?_printed, hinfinite]

theorem Vec3.ofData?_printed {v : Vec3} (h : ∃ x ∈ [v.x, v.y, v.z], isFinite x = false) :
    ofData? v.toData.printed = none := by
  rw [toData, Data.printed_record]
  exact Data.triple_printed h

theorem Color.ofData?_printed {c : Color} (h : ∃ x ∈ [c.r, c.g, c.b], isFinite x = false) :
    ofData? c.toData.printed = none := by
  rw [toData, Data.printed_record]
  exact Data.triple_printed h

namespace Scalar

theorem ofPayload?_printed {s : Scalar} (h : ∃ x ∈ s.floats, isFinite x = false) :
    ofPayload? s.kind s.payload.printed = none := by
  cases s with
  | float y =>
    obtain ⟨x, hx, hinfinite⟩ := h
    obtain rfl := List.mem_singleton.mp hx
    simp [ofPayload?, kind, payload, Data.number?_printed, hinfinite]
  | vector3 v => simp [ofPayload?, kind, payload, Vec3.ofData?_printed h]
  | color c => simp [ofPayload?, kind, payload, Color.ofData?_printed h]
  | bool | int | string | enumeration =>
    obtain ⟨x, hx, _⟩ := h
    cases hx

/-- The kind of a scalar is no name of a part of a plug. -/
theorem plug_ofData? (kind : ScalarKind) (d : Data) : Plug.ofData? (.record [(kind.word, d)]) = none := by
  cases kind <;> rfl

end Scalar

namespace Value

theorem text?_printed (v : Value) : v.toData.printed.text? = none := by
  cases v with
  | scalar payload => rfl
  | connection plug => rfl
  | array items => rfl

theorem ofDataItems?_eq_none {items : List Data} {item : Data} (hm : item ∈ items)
    (h : ofData? item = none) : ofDataItems? items = none := by
  induction items with
  | nil => cases hm
  | cons first rest ih =>
    rw [ofDataItems?]
    rcases List.mem_cons.mp hm with rfl | hrest
    · rw [h]
    · rw [ih hrest]
      cases ofData? first <;> rfl

/-- A value with a float that is not finite is not read from what is shown of it. -/
theorem ofData?_printed : ∀ {v : Value}, (∃ x ∈ v.floats, isFinite x = false) →
    ofData? v.toData.printed = none
  | scalar payload, h => by
    rw [floats] at h
    have hscalar : Scalar.ofData? (.record [(payload.kind.word, payload.payload.printed)]) = none := by
      rw [Scalar.ofData?, Scalar.ofWord?_word, Option.bind_some, Scalar.ofPayload?_printed h]
    rw [toData, Scalar.toData, Data.printed_record, List.map_singleton, ofData?, hscalar]
    · simp [Scalar.plug_ofData?]
    · simp
  | connection _, h => by
    obtain ⟨x, hx, _⟩ := h
    cases hx
  | array items, h => by
    obtain ⟨x, hx, hinfinite⟩ := h
    rw [floats, floatsOf_eq_flatMap, List.mem_flatMap] at hx
    obtain ⟨item, hitem, hx⟩ := hx
    have hnone := ofData?_printed (v := item) ⟨x, hx, hinfinite⟩
    have htexts : ∀ d ∈ (items.map toData).map Data.printed, d.text? = none := by
      intro d hd
      obtain ⟨_, hmem, rfl⟩ := List.mem_map.mp hd
      obtain ⟨other, _, rfl⟩ := List.mem_map.mp hmem
      exact text?_printed other
    rw [toData, toDataItems_eq_map, Data.printed_list, ofData?, Plug.ofData?_list htexts,
      ofDataItems?_eq_none (List.mem_map.mpr ⟨_, List.mem_map.mpr ⟨item, hitem, rfl⟩, rfl⟩) hnone]
    rfl

end Value

theorem Schema.ofData?_printed {schema : Schema} (h : ∃ x ∈ schema.floats, isFinite x = false) :
    ofData? schema.toData.printed = none := by
  obtain ⟨x, hx, hinfinite⟩ := h
  obtain ⟨value, hvalue, hx⟩ := List.mem_flatMap.mp hx
  have hattributes : Table.ofData? Value.ofData? (schema.attributes.toData Value.toData).printed =
      none := Table.ofData?_eq_none hvalue (Value.ofData?_printed ⟨x, hx, hinfinite⟩)
  rw [toData, Data.printed_record]
  split <;>
    simp [ofData?, Layout.read?, Layout.ofMembers?, Layout.field?, Layout.ofFields, Fields.required,
      Fields.defaulted, Entries.find?, hattributes]

theorem Slot.ofData?_printed {slot : Slot} (h : ∃ x ∈ slot.value.floats, isFinite x = false) :
    ofData? slot.toData.printed = none := by
  obtain ⟨value, input⟩ := slot
  rw [toData, Data.printed_record]
  cases input <;>
    simp [ofData?, Layout.read?, Layout.ofMembers?, Layout.field?, Layout.ofFields, Fields.required,
      Entries.find?, Value.ofData?_printed h]

theorem SceneNode.ofData?_printed {node : SceneNode} (h : ∃ x ∈ node.floats, isFinite x = false) :
    ofData? node.toData.printed = none := by
  obtain ⟨id, type, secondary, name, attributes, tags⟩ := node
  obtain ⟨x, hx, hinfinite⟩ := h
  obtain ⟨slot, hslot, hx⟩ := List.mem_flatMap.mp hx
  have hattributes : Table.ofData? Slot.ofData? (attributes.toData Slot.toData).printed = none :=
    Table.ofData?_eq_none hslot (Slot.ofData?_printed ⟨x, hx, hinfinite⟩)
  rw [toData, Data.printed_record]
  by_cases hempty : tags.entries.isEmpty = true <;> cases secondary <;>
    simp [ofData?, Layout.read?, Layout.ofMembers?, Layout.field?, Layout.ofFields, Fields.required,
      Fields.defaulted, Entries.find?, hempty, hattributes]

namespace Scene

theorem ofData?_printed {scene : Scene} (h : ∃ x ∈ scene.floats, isFinite x = false) :
    ofData? scene.toData.printed = none := by
  obtain ⟨x, hx, hinfinite⟩ := h
  rw [toData, Data.printed_record]
  rcases List.mem_append.mp hx with hx | hx
  · obtain ⟨schema, hschema, hx⟩ := List.mem_flatMap.mp hx
    have hschemas : Table.ofData? Schema.ofData? (scene.schemas.toData Schema.toData).printed = none :=
      Table.ofData?_eq_none hschema (Schema.ofData?_printed ⟨x, hx, hinfinite⟩)
    simp [ofData?, Layout.read?, Layout.ofMembers?, Layout.field?, Layout.ofFields, Fields.defaulted,
      Entries.find?, hschemas]
  · obtain ⟨node, hnode, hx⟩ := List.mem_flatMap.mp hx
    obtain ⟨entry, he, rfl⟩ := List.mem_map.mp hnode
    have hnone := SceneNode.ofData?_printed ⟨x, hx, hinfinite⟩
    have hnodes : nodesOfData? (nodesToData scene.nodes).printed = none := by
      rw [nodesToData, Data.printed_record, nodesOfData?, Data.members?, Option.bind_some,
        List.map_map, mapM_eq_none (List.mem_map.mpr ⟨entry, he, rfl⟩) (by simp [hnone])]
      rfl
    simp [ofData?, Layout.read?, Layout.ofMembers?, Layout.field?, Layout.ofFields, Fields.defaulted,
      Entries.find?, hnodes]

/-- A scene is read back from its text if its floats are finite, and not at all otherwise. -/
theorem load?_save_eq_ite {scene : Scene} (hreads : ∀ x ∈ scene.floats, Json.FiniteReadsBack x)
    (hdepth : scene.toData.depth ≤ 127) :
    load? scene.save = if scene.Finite then some scene else none := by
  rw [load?_save_eq hreads hdepth]
  split
  next hfinite =>
    rw [Json.printed_of_legible (fun _ h => h) _ (legible_toData hfinite), ofData?_toData]
  next hinfinite =>
    have hsome : ∃ x ∈ scene.floats, isFinite x = false := by
      simpa [Finite] using hinfinite
    exact ofData?_printed hsome

end Scene

namespace LiveScene

/-- After a conversion by a document of finite numbers and a cleanup, every float of a scene of finite
numbers arises by the steps of the document; the scene is read back from its text if none of them is
infinite or undefined, and not at all otherwise. -/
theorem load?_save_converted {doc : SheetDocument} {transcoder : Option Texture.Transcoder}
    {sheet : Sheet LiveScene} (hcompile : doc.compile transcoder = .ok sheet) (hdoc : doc.Finite)
    {workshop : Texture.Workshop} {run after : Run LiveScene} {report : ConversionReport}
    (hscene : run.state.scene.Finite)
    (hrun : (Migrator.inMemory sheet workshop).autoConvert run = (report, after))
    {M : Type} [Memory M] {options : Cleanup.Options} {pairs : List Replacement}
    {repointed : Cleanup.Report} {final : LiveScene}
    (hclean : cleanUp? (M := M) host options pairs after.state = some (repointed, final))
    (hreads : ∀ x ∈ final.scene.floats, Json.FiniteReadsBack x)
    (hdepth : final.scene.toData.depth ≤ 127) :
    (∀ x ∈ final.scene.floats, Expr.Arises doc.steps x) ∧
      Scene.load? final.scene.save = if final.scene.Finite then some final.scene else none :=
  ⟨floatsArise_of_convert hcompile hdoc hscene hrun hclean, Scene.load?_save_eq_ite hreads hdepth⟩

/-- Turns lamps into lights, with their power scaled. -/
def scaledLamps (scale : Float) : SheetDocument where
  rules := [{
    source := "lamp"
    target := some "light"
    attributes := .ofPairs
      [("power", .computed (.ofPairs [("intensity", .expr (.affine scale 0.0))]))] }]

/-- A lamp of some power, which a room shows. -/
def oneLamp (power : Float) : LiveScene where
  scene := {
    schemas := .ofPairs [("light", ⟨"light", .ofPairs [("intensity", .float 0.0)], {}⟩)]
    nodes := .ofPairs
      [(.ofNat 1, ⟨.ofNat 1, "lamp", none, "key", .ofPairs [("power", ⟨.float power, none⟩)], .empty⟩),
        (.ofNat 2, ⟨.ofNat 2, "room", none, "attic", .ofPairs
          [("lights", ⟨.array [.connection ⟨.ofNat 1, none⟩], none⟩)], .empty⟩)]
    roots := [.ofNat 2] }
  supply := { id := fun n => .ofNat (n + 3) }

def scaledLampRules (scale : Float) : Sheet LiveScene :=
  .ofPairs [("lamp", (Rule.replacing "light").computed "power" "intensity"
    (.ofExpr (.affine scale 0.0)))]

def scaledRun (scale power : Float) : ConversionReport × Run LiveScene :=
  (Migrator.inMemory (scaledLampRules scale) ⟨{}, {}, fun _ _ => .ok (.code 0)⟩).autoConvert
    ⟨{}, oneLamp power⟩

theorem compile_scaledLamps (scale : Float) :
    (scaledLamps scale).compile none = .ok (scaledLampRules scale) := rfl

def scaledCleanup (scale power : Float) : Option (Cleanup.Report × LiveScene) :=
  cleanUp? (M := Memo) host {} (scaledRun scale power).1.pairs (scaledRun scale power).2.state

/-- A lamp of power 1.5 at half the power. -/
theorem scaledLamps_reload : ∃ repointed final, scaledCleanup 0.5 1.5 = some (repointed, final) ∧
    (∀ x ∈ final.scene.floats, Expr.Arises (scaledLamps 0.5).steps x) ∧
      Scene.load? final.scene.save = some final.scene := by
  have hfinal : (scaledCleanup 0.5 1.5).map (fun result =>
      (decide (∀ x ∈ result.2.scene.floats, Json.FiniteReadsBack x),
        decide (result.2.scene.toData.depth ≤ 127), decide result.2.scene.Finite)) =
          some (true, true, true) := by decide +kernel
  obtain ⟨⟨repointed, final⟩, hclean, hall⟩ := Option.map_eq_some_iff.mp hfinal
  simp only [Prod.mk.injEq, decide_eq_true_eq] at hall
  obtain ⟨harise, hload⟩ := load?_save_converted (compile_scaledLamps 0.5) (by decide +kernel)
    (by decide +kernel) (Prod.eta (scaledRun 0.5 1.5)).symm hclean hall.1 hall.2.1
  rw [if_pos hall.2.2] at hload
  exact ⟨repointed, final, hclean, harise, hload⟩

/-- A lamp of a power of 1e308 at ten times the power is lost: all numbers in the scene and in the
document are finite, but the product is not. -/
theorem scaledLamps_lost :
    (oneLamp (.ofBits 0x7FE1CCF385EBC8A0)).scene.Finite ∧ (scaledLamps 10.0).Finite ∧
      ∃ repointed final,
        scaledCleanup 10.0 (.ofBits 0x7FE1CCF385EBC8A0) = some (repointed, final) ∧
          ¬ final.scene.Finite ∧ Scene.load? final.scene.save = none := by
  have hfinal : (scaledCleanup 10.0 (.ofBits 0x7FE1CCF385EBC8A0)).map (fun result =>
      (decide (∀ x ∈ result.2.scene.floats, Json.FiniteReadsBack x),
        decide (result.2.scene.toData.depth ≤ 127), decide result.2.scene.Finite)) =
          some (true, true, false) := by decide +kernel
  obtain ⟨⟨repointed, final⟩, hclean, hall⟩ := Option.map_eq_some_iff.mp hfinal
  simp only [Prod.mk.injEq, decide_eq_true_eq, decide_eq_false_iff_not] at hall
  have hload := Scene.load?_save_eq_ite hall.1 hall.2.1
  rw [if_neg hall.2.2] at hload
  exact ⟨by decide +kernel, by decide +kernel, repointed, final, hclean, hall.2.2, hload⟩

end LiveScene

end ShaderMigration
