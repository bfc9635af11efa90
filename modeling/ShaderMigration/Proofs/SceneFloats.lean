import ShaderMigration.Proofs.HostCalls
import ShaderMigration.Proofs.SceneRoundTrip
import ShaderMigration.Proofs.StepOverflow
import ShaderMigration.Proofs.WellFormedScenes

namespace ShaderMigration

open Binary64 (isFinite)

namespace Scene

variable {scene scene' : Scene} {node : NodeId} {attr : String} {x : Float}

theorem mem_floats_iff : x ∈ scene.floats ↔
    (∃ type schema, scene.schemas.find? type = some schema ∧
      ∃ name default, schema.attributes.find? name = some default ∧ x ∈ default.floats) ∨
        ∃ id name slot, scene.slot? id name = some slot ∧ x ∈ slot.value.floats := by
  simp only [floats, Schema.floats, SceneNode.floats, Table.values, slot?, List.mem_append,
    List.mem_flatMap, List.mem_map, Option.bind_eq_some_iff, ← Table.mem_entries_iff]
  constructor
  · rintro (⟨schema, ⟨entry, he, rfl⟩, default, ⟨named, hn, rfl⟩, hx⟩ |
      ⟨found, ⟨entry, he, rfl⟩, slot, ⟨named, hn, rfl⟩, hx⟩)
    · exact .inl ⟨_, _, he, _, _, hn, hx⟩
    · exact .inr ⟨_, _, _, ⟨_, he, hn⟩, hx⟩
  · rintro (⟨type, schema, he, name, default, hn, hx⟩ | ⟨id, name, slot, ⟨found, he, hn⟩, hx⟩)
    · exact .inl ⟨_, ⟨_, he, rfl⟩, _, ⟨_, hn, rfl⟩, hx⟩
    · exact .inr ⟨_, ⟨_, he, rfl⟩, _, ⟨_, hn, rfl⟩, hx⟩

theorem mem_floats_of_slot? {slot : Slot} (h : scene.slot? node attr = some slot)
    (hx : x ∈ slot.value.floats) : x ∈ scene.floats :=
  mem_floats_iff.mpr (.inr ⟨node, attr, slot, h, hx⟩)

theorem mem_floats_putSlot {slot : Slot} (hx : x ∈ (scene.putSlot node attr slot).floats) :
    x ∈ scene.floats ∨ x ∈ slot.value.floats := by
  rcases mem_floats_iff.mp hx with hdefault | ⟨id, name, found, hslot, hfound⟩
  · exact .inl (mem_floats_iff.mpr (.inl hdefault))
  · rw [slot?_putSlot] at hslot
    split at hslot
    next =>
      obtain ⟨_, _, rfl⟩ := Option.map_eq_some_iff.mp hslot
      exact .inr hfound
    next => exact .inl (mem_floats_of_slot? hslot hfound)

theorem floats_of_fit {held value fitted : Value} (h : fit held value = .ok fitted) :
    ∀ x ∈ fitted.floats, isFinite x = true ∨ x ∈ value.floats := by
  unfold fit at h
  split at h
  next =>
    split at h
    next hcoerce =>
      cases h
      exact Scalar.isFinite_or_mem_of_coerce? hcoerce
    next => cases h
  next =>
    cases h
    exact fun x hx => .inr hx
  next => cases h

theorem mem_floats_of_connect {source : Plug} (h : scene.connect source node attr = .ok scene')
    (hx : x ∈ scene'.floats) : x ∈ scene.floats := by
  obtain ⟨_, _, slot, hslot, rfl⟩ := connect_eq_ok_iff.mp h
  rcases mem_floats_putSlot hx with hold | hkept
  · exact hold
  · exact mem_floats_of_slot? hslot hkept

theorem mem_floats_of_set {value : Value} (h : scene.set node attr value = .ok scene')
    (hx : x ∈ scene'.floats) : x ∈ scene.floats ∨ isFinite x = true ∨ x ∈ value.floats := by
  have hstore : value.isConnection = false →
      x ∈ scene.floats ∨ isFinite x = true ∨ x ∈ value.floats := by
    intro hv
    obtain ⟨_, slot, fitted, _, hfit, rfl⟩ := (set_eq_ok_iff hv).mp h
    exact (mem_floats_putSlot hx).imp_right (floats_of_fit hfit x)
  cases value with
  | connection plug => exact .inl (mem_floats_of_connect h hx)
  | scalar payload => exact hstore rfl
  | array items => exact hstore rfl

theorem mem_floats_of_setIndexed {index : Nat} {value : Value}
    (h : scene.setIndexed node attr index value = .ok scene') (hx : x ∈ scene'.floats) :
    x ∈ scene.floats ∨ x ∈ value.floats := by
  obtain ⟨_, slot, items, hslot, hitems, _, rfl⟩ := setIndexed_eq_ok_iff.mp h
  rcases mem_floats_putSlot hx with hold | hnew
  · exact .inl hold
  · rw [Value.floats, Value.floatsOf_eq_flatMap, List.mem_flatMap] at hnew
    obtain ⟨item, hitem, hfloat⟩ := hnew
    rcases List.mem_or_eq_of_mem_set hitem with hmem | rfl
    · refine .inl (mem_floats_of_slot? hslot ?_)
      rw [hitems, Value.floats, Value.floatsOf_eq_flatMap]
      exact List.mem_flatMap.mpr ⟨item, hmem, hfloat⟩
    · exact .inr hfloat

theorem mem_floats_of_modify (f : SceneNode → SceneNode)
    (hf : ∀ found, (f found).attributes = found.attributes)
    (hx : x ∈ floats { scene with nodes := scene.nodes.modify node f }) : x ∈ scene.floats := by
  refine mem_floats_iff.mpr ((mem_floats_iff.mp hx).imp_right ?_)
  intro hslot
  obtain ⟨id, name, slot, hslot, hx⟩ := hslot
  exact ⟨id, name, slot, slot?_modify f hf id name ▸ hslot, hx⟩

theorem mem_floats_of_addNode {id : NodeId} {type name : String} {secondary : Option String}
    (hx : x ∈ (scene.addNode id type name secondary).floats) : x ∈ scene.floats := by
  rcases mem_floats_iff.mp hx with hdefault | ⟨other, attr, slot, hslot, hx⟩
  · exact mem_floats_iff.mpr (.inl hdefault)
  · rcases slot?_of_addNode hslot with hold | ⟨schema, hschema, default, hdefault, rfl⟩
    · exact mem_floats_of_slot? hold hx
    · exact mem_floats_iff.mpr (.inl ⟨type, schema, hschema, attr, default, hdefault, hx⟩)

end Scene

/-- The floats that a call offers to the host. -/
def HostCall.floats : HostCall → List Float
  | .set _ _ value => value.floats
  | .setIndexed _ _ _ value => value.floats
  | _ => []

theorem Cleanup.Repoints.floats_eq_nil {call : HostCall} (h : Cleanup.Repoints call) :
    call.floats = [] := by
  cases h <;> rfl

namespace LiveScene

variable {live later : LiveScene}

theorem mem_floats_edit {α : Type} {result : α} {f : Scene → Except HostError Scene} {x : Float}
    {Q : Prop} (h : ∀ scene', f live.scene = .ok scene' → x ∈ scene'.floats → x ∈ live.scene.floats ∨ Q)
    (hx : x ∈ (edit result f live).2.scene.floats) : x ∈ live.scene.floats ∨ Q := by
  rcases edit_cases result f live with ⟨scene', hok, heq⟩ | ⟨cause, _, heq⟩
  · exact h scene' hok (by rwa [heq] at hx)
  · exact .inl (by rwa [heq] at hx)

/-- One case for each call. -/
theorem mem_floats_after {call : HostCall} {x : Float} (hx : x ∈ (host.after live call).scene.floats) :
    x ∈ live.scene.floats ∨ isFinite x = true ∨ x ∈ call.floats := by
  cases call with
  | rename node name =>
    refine mem_floats_edit (fun scene' hok hx => .inl ?_) hx
    obtain ⟨_, rfl⟩ := Scene.rename_eq_ok_iff.mp hok
    exact Scene.mem_floats_of_modify (fun found => { found with name }) (fun _ => rfl) hx
  | create type secondary =>
    rcases create_cases type secondary live with ⟨scene', hok, heq⟩ | ⟨cause, heq⟩
    · rw [Host.after, show host.create = create from rfl, heq] at hx
      obtain ⟨_, rfl⟩ := Scene.create_eq_ok_iff.mp hok
      exact .inl (Scene.mem_floats_of_addNode hx)
    · rw [Host.after, show host.create = create from rfl, heq] at hx
      exact .inl hx
  | set node attr value => exact mem_floats_edit (fun _ => Scene.mem_floats_of_set) hx
  | connect source node attr =>
    exact mem_floats_edit (fun _ hok hx => .inl (Scene.mem_floats_of_connect hok hx)) hx
  | setIndexed node attr index value =>
    refine mem_floats_edit (fun _ hok hx => ?_) hx
    exact (Scene.mem_floats_of_setIndexed hok hx).imp_right .inr
  | setTag node key text =>
    refine mem_floats_edit (fun scene' hok hx => .inl ?_) hx
    obtain ⟨_, rfl⟩ := Scene.setTag_eq_ok_iff.mp hok
    exact Scene.mem_floats_of_modify (fun found => { found with tags := found.tags.insert key text })
      (fun _ => rfl) hx

/-- Calls that offer no floats bring in none but finite ones. -/
theorem mem_floats_of_reachesBy {P : HostCall → Prop} (hP : ∀ call, P call → call.floats = [])
    (h : host.ReachesBy P live later) :
    ∀ x ∈ later.scene.floats, x ∈ live.scene.floats ∨ isFinite x = true := by
  obtain ⟨calls, hcalls, rfl⟩ := h
  induction calls generalizing live with
  | nil => exact fun x hx => .inl hx
  | cons call rest ih =>
    obtain ⟨hcall, hrest⟩ := List.forall_mem_cons.mp hcalls
    intro x hx
    rcases @ih (host.after live call) hrest x hx with hmid | hfinite
    · rcases mem_floats_after hmid with hlive | hfinite | hoffered
      · exact .inl hlive
      · exact .inr hfinite
      · rw [hP call hcall] at hoffered
        cases hoffered
    · exact .inr hfinite

section Conversion

variable {steps : List Expr}

/-- The floats of a scene under conversion arise by the steps of the sheet. -/
def FloatsArise (steps : List Expr) (live : LiveScene) : Prop :=
  ∀ x ∈ live.scene.floats, Expr.Arises steps x

theorem FloatsArise.after (h : live.FloatsArise steps) {call : HostCall}
    (hcall : ∀ x ∈ call.floats, Expr.Arises steps x) : (host.after live call).FloatsArise steps := by
  intro x hx
  rcases mem_floats_after hx with hlive | hfinite | hoffered
  · exact h x hlive
  · exact .finite hfinite
  · exact hcall x hoffered

theorem mapping_keeps_floats (steps : List Expr) (old new : NodeId) :
    Mapping.Keeps host old new (FloatsArise steps)
      fun value => ∀ x ∈ value.floats, Expr.Arises steps x where
  get := by
    intro live attr value h hget x hx
    obtain ⟨slot, hslot, rfl⟩ := except_map_eq_ok_iff.mp hget
    unfold Slot.live at hx
    split at hx
    next => cases hx
    next => exact h x (Scene.mem_floats_of_slot? (Scene.slot_eq_ok_iff.mp hslot) hx)
  getStatic := by
    intro live attr value h hget x hx
    obtain ⟨slot, hslot, rfl⟩ := except_map_eq_ok_iff.mp hget
    exact h x (Scene.mem_floats_of_slot? (Scene.slot_eq_ok_iff.mp hslot) hx)
  connections := fun _ _ _ _ => List.forall_mem_nil _
  connect := fun plug attr h _ => @FloatsArise.after _ _ h (.connect plug new attr) (List.forall_mem_nil _)
  set := fun attr value h hvalue => @FloatsArise.after _ _ h (.set new attr value) hvalue

theorem conversion_keeps_floats (steps : List Expr) :
    Migrator.Keeps host (fun _ => FloatsArise steps)
      fun _ _ value => ∀ x ∈ value.floats, Expr.Arises steps x where
  onto := fun _ old => mapping_keeps_floats steps old old
  fill := fun {_ old new} _ => mapping_keeps_floats steps old new
  rename := fun node name h => @FloatsArise.after _ _ h (.rename node name) (List.forall_mem_nil _)
  create := by
    intro pairs live old type target secondary new later h _ hcreate
    have hafter := @FloatsArise.after _ _ h (.create target secondary) (List.forall_mem_nil _)
    rwa [Host.after, hcreate] at hafter
  refuse := by
    intro pairs live target secondary cause later h hcreate
    have hafter := @FloatsArise.after _ _ h (.create target secondary) (List.forall_mem_nil _)
    rwa [Host.after, hcreate] at hafter

/-- After a conversion by a document of finite numbers and a cleanup, every float of a scene of finite
numbers is finite or the outcome of steps of the document. -/
theorem floatsArise_of_convert {doc : SheetDocument} {transcoder : Option Texture.Transcoder}
    {sheet : Sheet LiveScene} (hcompile : doc.compile transcoder = .ok sheet) (hdoc : doc.Finite)
    {workshop : Texture.Workshop} {run after : Run LiveScene} {report : ConversionReport}
    (hscene : run.state.scene.Finite)
    (hrun : (Migrator.inMemory sheet workshop).autoConvert run = (report, after))
    {M : Type} [Memory M] {options : Cleanup.Options} {pairs : List Replacement}
    {repointed : Cleanup.Report} {final : LiveScene}
    (hclean : cleanUp? (M := M) host options pairs after.state = some (repointed, final)) :
    final.FloatsArise doc.steps := by
  have hconverted := Migrator.keeps_autoConvert (Migrator.inMemory sheet workshop)
    (conversion_keeps_floats doc.steps) (doc.tame_of_compile hdoc hcompile) run
    fun x hx => .finite (hscene x hx)
  rw [hrun] at hconverted
  intro x hx
  rcases mem_floats_of_reachesBy (fun _ => Cleanup.Repoints.floats_eq_nil)
    (Cleanup.reachesBy_cleanUp? hclean) x hx with hmid | hfinite
  · exact hconverted x hmid
  · exact .finite hfinite

end Conversion

end LiveScene

end ShaderMigration
