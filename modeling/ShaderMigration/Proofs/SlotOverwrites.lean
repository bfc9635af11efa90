import ShaderMigration.Proofs.MappedSlots

namespace ShaderMigration

namespace Entries

variable {κ α : Type} [DecidableEq κ] {key other : κ} {f g : α → α} {entries : List (κ × α)}

theorem modify_modify : modify key f (modify key g entries) = modify key (f ∘ g) entries := by
  induction entries with
  | nil => rfl
  | cons entry rest ih =>
    obtain ⟨k, a⟩ := entry
    by_cases hk : k = key <;> simp [modify, hk, ih]

theorem modify_comm (h : key ≠ other) :
    modify key f (modify other g entries) = modify other g (modify key f entries) := by
  induction entries with
  | nil => rfl
  | cons entry rest ih =>
    obtain ⟨k, a⟩ := entry
    by_cases hk : k = key
    · subst hk
      simp [modify, h]
    · by_cases ho : k = other
      · subst ho
        simp [modify, hk]
      · simp [modify, hk, ho, ih]

theorem modify_congr (h : ∀ a, find? key entries = some a → f a = g a) :
    modify key f entries = modify key g entries := by
  induction entries with
  | nil => rfl
  | cons entry rest ih =>
    obtain ⟨k, a⟩ := entry
    by_cases hk : k = key
    · have hvalue : f a = g a := h a (by simp [find?, hk])
      simp [modify, hk, hvalue]
    · have hrest := ih fun a ha => h a (by simpa [find?, hk] using ha)
      simp [modify, hk, hrest]

end Entries

namespace Table

variable {κ α : Type} [DecidableEq κ] {key other : κ} {f g : α → α} {table : Table κ α}

theorem modify_modify : (table.modify key g).modify key f = table.modify key (f ∘ g) :=
  Table.ext Entries.modify_modify

theorem modify_comm (h : key ≠ other) :
    (table.modify other g).modify key f = (table.modify key f).modify other g :=
  Table.ext (Entries.modify_comm h)

theorem modify_congr (h : ∀ a, table.find? key = some a → f a = g a) :
    table.modify key f = table.modify key g :=
  Table.ext (Entries.modify_congr h)

end Table

/-- A change of a slot that does not look at what it holds. -/
structure Overwrite where
  value : Option Value
  input : Option (Option Plug)

namespace Overwrite

def apply (change : Overwrite) (slot : Slot) : Slot :=
  ⟨change.value.getD slot.value, change.input.getD slot.input⟩

/-- What a change sets at the end, it need not set before. -/
theorem apply_absorbs (first second : Overwrite) (slot : Slot) :
    first.apply (second.apply (first.apply slot)) = first.apply (second.apply slot) := by
  obtain ⟨value, input⟩ := first
  cases value <;> cases input <;> rfl

theorem apply_apply (change : Overwrite) (slot : Slot) :
    change.apply (change.apply slot) = change.apply slot := change.apply_absorbs ⟨none, none⟩ slot

/-- What writing a value does to a slot that stores a value of the shape. -/
def ofWrite (shape : Shape) : Value → Overwrite
  | .connection plug => ⟨none, some (some plug)⟩
  | .array items => ⟨some (.array items), some none⟩
  | .scalar payload =>
    match shape with
    | .scalar kind => ⟨(payload.coerce? kind).map .scalar, some none⟩
    | _ => ⟨none, some none⟩

end Overwrite

namespace Scene

variable {scene scene' : Scene} {node : NodeId} {attr : String} {value : Value}

def overwrite (node : NodeId) (scene : Scene) (write : String × Overwrite) : Scene :=
  { scene with
    nodes := scene.nodes.modify node fun found =>
      { found with attributes := found.attributes.modify write.1 write.2.apply } }

def overwriteAll (node : NodeId) (writes : List (String × Overwrite)) (scene : Scene) : Scene :=
  writes.foldl (overwrite node) scene

theorem slot?_overwrite (write : String × Overwrite) (other : NodeId) (name : String) :
    (scene.overwrite node write).slot? other name =
      if other = node ∧ name = write.1 then (scene.slot? other name).map write.2.apply
      else scene.slot? other name := by
  unfold slot? overwrite
  rw [Table.find?_modify]
  by_cases hnode : other = node
  · subst hnode
    cases scene.nodes.find? other with
    | none => simp
    | some found =>
      simp only [if_true, Option.map_some, Option.bind_some, true_and, Table.find?_modify]
  · simp only [hnode, if_false, false_and]

theorem overwrite_absorbs (first second : String × Overwrite) :
    ((scene.overwrite node first).overwrite node second).overwrite node first =
      (scene.overwrite node second).overwrite node first := by
  obtain ⟨attr, change⟩ := first
  obtain ⟨attr', change'⟩ := second
  unfold overwrite
  simp only [Table.modify_modify, Function.comp_def]
  congr 2
  funext found
  congr 1
  by_cases hattr : attr = attr'
  · subst hattr
    simp only [Table.modify_modify, Function.comp_def, Overwrite.apply_absorbs]
  · rw [Table.modify_comm (Ne.symm hattr)]
    simp only [Table.modify_modify, Function.comp_def, Overwrite.apply_apply]

theorem overwrite_overwrite (write : String × Overwrite) :
    (scene.overwrite node write).overwrite node write = scene.overwrite node write := by
  unfold overwrite
  simp only [Table.modify_modify, Function.comp_def, Overwrite.apply_apply]

theorem overwriteAll_absorbs (node : NodeId) (write : String × Overwrite)
    (writes : List (String × Overwrite)) (scene : Scene) :
    ((scene.overwrite node write).overwriteAll node writes).overwrite node write =
      (scene.overwriteAll node writes).overwrite node write := by
  induction writes generalizing scene with
  | nil => exact overwrite_overwrite write
  | cons second rest ih =>
    change (((scene.overwrite node write).overwrite node second).overwriteAll node rest).overwrite
      node write = ((scene.overwrite node second).overwriteAll node rest).overwrite node write
    rw [← ih, overwrite_absorbs, ih]

theorem overwriteAll_append (first second : List (String × Overwrite)) (scene : Scene) :
    scene.overwriteAll node (first ++ second) =
      (scene.overwriteAll node first).overwriteAll node second :=
  List.foldl_append

/-- Overwrites that are carried out again at the end need not be carried out before. -/
theorem overwriteAll_between (writes between : List (String × Overwrite)) (scene : Scene) :
    ((scene.overwriteAll node writes).overwriteAll node between).overwriteAll node writes =
      (scene.overwriteAll node between).overwriteAll node writes := by
  induction writes generalizing between scene with
  | nil => rfl
  | cons write rest ih =>
    -- the first write is moved to the end of those in between
    have hshift : ∀ later : Scene, (later.overwriteAll node between).overwriteAll node
        (write :: rest) = (later.overwriteAll node (between ++ [write])).overwriteAll node rest := by
      intro later
      rw [overwriteAll_append]
      rfl
    have hfirst : (scene.overwriteAll node (write :: rest)).overwriteAll node (between ++ [write]) =
        (scene.overwriteAll node rest).overwriteAll node (between ++ [write]) := by
      have habsorbs := overwriteAll_absorbs node write (rest ++ between) scene
      rw [overwriteAll_append, overwriteAll_append] at habsorbs
      rw [overwriteAll_append, overwriteAll_append]
      exact habsorbs
    rw [hshift, hfirst, ih, ← hshift]

/-- Overwrites that are carried out again change nothing. -/
theorem overwriteAll_overwriteAll (writes : List (String × Overwrite)) (scene : Scene) :
    (scene.overwriteAll node writes).overwriteAll node writes = scene.overwriteAll node writes :=
  overwriteAll_between writes [] scene

/-- A write that is accepted overwrites the attribute. -/
theorem overwrite_of_set (h : scene.set node attr value = .ok scene') :
    ∃ held, scene.slot? node attr = some held ∧
      scene' = scene.overwrite node (attr, .ofWrite held.value.shape value) := by
  -- the slot that is put is what the change makes of the one that is there
  have hput : ∀ {held : Slot} (change : Overwrite), scene.slot? node attr = some held →
      scene.putSlot node attr (change.apply held) = scene.overwrite node (attr, change) := by
    intro held change hheld
    unfold putSlot overwrite
    congr 1
    refine Table.modify_congr fun found hfound => ?_
    rw [slot?, hfound, Option.bind_some] at hheld
    congr 1
    refine Table.modify_congr fun slot hslot => ?_
    rw [Option.some.inj (hheld.symm.trans hslot)]
  cases value with
  | connection plug =>
    rw [set_connection] at h
    obtain ⟨_, _, held, hheld, rfl⟩ := connect_eq_ok_iff.mp h
    exact ⟨held, hheld, hput ⟨none, some (some plug)⟩ hheld⟩
  | scalar payload =>
    obtain ⟨_, held, fitted, hheld, hfit, rfl⟩ := (set_eq_ok_iff rfl).mp h
    refine ⟨held, hheld, ?_⟩
    rw [← hput _ hheld]
    cases takes_of_fit hfit with
    | scalar hvalue hfitted => simp [Overwrite.apply, Overwrite.ofWrite, hvalue, Value.shape, hfitted]
  | array items =>
    obtain ⟨_, held, fitted, hheld, hfit, rfl⟩ := (set_eq_ok_iff rfl).mp h
    refine ⟨held, hheld, ?_⟩
    rw [← hput _ hheld]
    cases takes_of_fit hfit
    rfl

end Scene

namespace Mapping

variable {old new : NodeId} {start scene : Scene} {pairing : Pairing}

/-- What a pair that is accepted does to its target. -/
def overwrite? (start : Scene) (old new : NodeId) (pairing : Pairing) :
    Option (String × Overwrite) :=
  if accepted start old new pairing then
    (pairing.offered? (start.slot? old pairing.source)).bind fun value =>
      (start.slot? new pairing.target).map fun held =>
        (pairing.target, .ofWrite held.value.shape value)
  else none

theorem getD_takes?_eq (h : start.SameShapes scene) :
    (takes? start scene old new pairing).getD scene =
      ((overwrite? start old new pairing).map (scene.overwrite new)).getD scene := by
  have haccepted := isSome_takes? old new pairing h
  unfold overwrite?
  cases htakes : takes? start scene old new pairing with
  | none =>
    rw [htakes] at haccepted
    rw [← haccepted]
    rfl
  | some later =>
    rw [htakes] at haccepted
    obtain ⟨value, hoffered, hset⟩ := takes?_eq_some_iff.mp htakes
    obtain ⟨held, hheld, rfl⟩ := Scene.overwrite_of_set hset
    obtain ⟨before, hbefore, hshape⟩ := Option.map_eq_some_iff.mp
      ((h.shapes new pairing.target).symm.trans (congrArg _ hheld))
    have hsame : before.value.shape = held.value.shape := hshape
    rw [← haccepted, hoffered, hbefore, ← hsame]
    rfl

/-- Mapping pairs overwrites the targets of those that are accepted. -/
theorem written_eq (pairings : List Pairing) (h : start.SameShapes scene) :
    written start old new pairings scene =
      scene.overwriteAll new (pairings.filterMap (overwrite? start old new)) := by
  induction pairings generalizing scene with
  | nil => rfl
  | cons pairing rest ih =>
    have hkept : start.SameShapes ((takes? start scene old new pairing).getD scene) :=
      h.trans sameShapes_getD_takes?
    change written start old new rest ((takes? start scene old new pairing).getD scene) = _
    rw [ih hkept, getD_takes?_eq h]
    cases hwrite : overwrite? start old new pairing with
    | none => rw [List.filterMap_cons_none hwrite]; rfl
    | some write => rw [List.filterMap_cons_some hwrite]; rfl

theorem written_written (pairings : List Pairing) (h : start.SameShapes scene) :
    written start old new pairings (written start old new pairings scene) =
      written start old new pairings scene := by
  rw [written_eq pairings (h.trans (sameShapes_written pairings)), written_eq pairings h]
  exact Scene.overwriteAll_overwriteAll _ scene

end Mapping

end ShaderMigration
