import ShaderMigration.Proofs.BuildReplay
import ShaderMigration.Proofs.StoredPlugs

namespace ShaderMigration

/-- What can be asked of a scene from the outside: to register a type, to add or declare something
without looking at the schemas, and all that a host is asked. -/
inductive SceneCommand where
  | register (schema : Schema)
  | addNode (type name : String)
  | declare (node : NodeId) (attr : String) (value : Value)
  | addRoot (node : NodeId)
  | call (call : HostCall)
deriving DecidableEq

namespace LiveScene

def carryOut (live : LiveScene) : SceneCommand → LiveScene
  | .register schema => { live with scene := live.scene.register schema }
  | .addNode type name => (addNode type name live).2
  | .declare node attr value => (edit () (fun scene => scene.declare node attr value) live).2
  | .addRoot node => { live with scene := live.scene.addRoot node }
  | .call call => host.after live call

def carryOutAll (commands : List SceneCommand) (live : LiveScene) : LiveScene :=
  commands.foldl carryOut live

/-- The command makes the node, of a type that has a connection for the default of the attribute. -/
def MakesPlugged (live : LiveScene) (node : NodeId) (attr : String) : SceneCommand → Prop
  | .addNode type _ => node = live.supply.next ∧ live.scene.PlugDefault type attr
  | .call (.create type _) => node = live.supply.next ∧ live.scene.PlugDefault type attr
  | _ => False

/-- The command makes the node anew or declares its attribute. -/
def Renews (live : LiveScene) (node : NodeId) (attr : String) : SceneCommand → Prop
  | .addNode _ _ => node = live.supply.next
  | .call (.create type _) => live.scene.schemas.contains type ∧ node = live.supply.next
  | .declare other name _ => node = other ∧ attr = name
  | _ => False

/-- Some command of the run made the slot from a default that is a connection, and no later one made or
declared it anew. -/
def LeftPlugged (live : LiveScene) (commands : List SceneCommand) (node : NodeId) (attr : String) :
    Prop :=
  ∃ done command rest, commands = done ++ command :: rest ∧
    (carryOutAll done live).MakesPlugged node attr command ∧
    ∀ between later, between ++ [later] <+: rest →
      ¬ (carryOutAll (done ++ command :: between) live).Renews node attr later

variable {live : LiveScene} {node : NodeId} {attr : String}

theorem carryOutAll_concat (commands : List SceneCommand) (command : SceneCommand) (live : LiveScene) :
    carryOutAll (commands ++ [command]) live = (carryOutAll commands live).carryOut command := by
  simp [carryOutAll]

theorem storesPlug_edit {f : Scene → Except HostError Scene}
    (hf : ∀ scene, f live.scene = .ok scene →
      (scene.StoresPlug node attr ↔ live.scene.StoresPlug node attr)) {α : Type} (result : α) :
    (edit result f live).2.scene.StoresPlug node attr ↔ live.scene.StoresPlug node attr := by
  rcases edit_cases result f live with ⟨scene, hok, heq⟩ | ⟨cause, _, heq⟩
  · rw [heq]
    exact hf scene hok
  · rw [heq]

theorem storesPlug_create (type : String) (secondary : Option String) :
    (create type secondary live).2.scene.StoresPlug node attr ↔
      node = live.supply.next ∧ live.scene.PlugDefault type attr ∨
        live.scene.StoresPlug node attr ∧
          ¬ (live.scene.schemas.contains type ∧ node = live.supply.next) := by
  rw [create_eq]
  split
  next hschema =>
    rw [Scene.storesPlug_addNode]
    simp [hschema]
  next hschema =>
    have hnone : ¬ live.scene.PlugDefault type attr := by
      intro h
      obtain ⟨schema, _, hfound, _⟩ := h
      simp [Table.contains, hfound] at hschema
    simp [hschema, hnone]

/-- One case for each command; the calls that only write are alike. -/
theorem storesPlug_carryOut (command : SceneCommand) :
    (live.carryOut command).scene.StoresPlug node attr ↔ live.MakesPlugged node attr command ∨
      live.scene.StoresPlug node attr ∧ ¬ live.Renews node attr command := by
  have hkept : ∀ {P : Prop}, (P ↔ live.scene.StoresPlug node attr) →
      (P ↔ False ∨ live.scene.StoresPlug node attr ∧ ¬ False) := fun h => by simpa using h
  cases command with
  | register schema => exact hkept (Scene.storesPlug_of_slots rfl)
  | addRoot id =>
    refine hkept (Scene.storesPlug_of_slots ?_)
    rw [carryOut, Scene.addRoot]
    split
    next => rfl
    next => rfl
  | addNode type name => exact Scene.storesPlug_addNode _ _ _ _ _
  | declare other name value =>
    simp only [MakesPlugged, Renews, false_or]
    rcases edit_cases () (fun scene => scene.declare other name value) live with
      ⟨scene, hok, heq⟩ | ⟨cause, herror, heq⟩
    · rw [carryOut, heq]
      exact Scene.storesPlug_of_declare hok
    · -- a node that is not there holds nothing
      rw [carryOut, heq]
      refine ⟨fun h => ⟨h, fun hsame => ?_⟩, And.left⟩
      obtain ⟨rfl, rfl⟩ := hsame
      obtain ⟨slot, _, hslot, _⟩ := h
      obtain ⟨found, hfound⟩ := Table.mem_keys_iff.mp (Scene.mem_keys_of_slot? hslot)
      simp [Scene.declare, hfound] at herror
  | call call =>
    cases call with
    | create type secondary => exact storesPlug_create type secondary
    | rename other name =>
      exact hkept (storesPlug_edit
        (fun _ hok => Scene.storesPlug_of_slots (Scene.slot?_of_rename hok _ _)) name)
    | set other name value =>
      exact hkept (storesPlug_edit (fun _ hok => Scene.storesPlug_of_set hok) ())
    | connect source other name =>
      exact hkept (storesPlug_edit (fun _ hok => Scene.storesPlug_of_connect hok) ())
    | setIndexed other name index value =>
      exact hkept (storesPlug_edit (fun _ hok => Scene.storesPlug_of_setIndexed hok) ())
    | setTag other key text =>
      refine hkept (storesPlug_edit (fun _ hok => Scene.storesPlug_of_slots ?_) ())
      exact (Scene.same_of_setTag hok).2.2 _ _

/-- Where no connection was stored at first, one is stored exactly if it was left there by the run. -/
theorem storesPlug_carryOutAll (commands : List SceneCommand)
    (hstart : ¬ live.scene.StoresPlug node attr) :
    (carryOutAll commands live).scene.StoresPlug node attr ↔
      live.LeftPlugged commands node attr := by
  induction commands using List.reverseRecOn with
  | nil => simpa [carryOutAll, LeftPlugged] using hstart
  | append_singleton commands last ih =>
    rw [carryOutAll_concat, storesPlug_carryOut, ih]
    constructor
    · intro h
      rcases h with hmakes | ⟨⟨done, command, rest, rfl, hmakes, hkept⟩, hlast⟩
      · exact ⟨commands, last, [], rfl, hmakes, by simp⟩
      · refine ⟨done, command, rest ++ [last], by simp, hmakes, fun between later hbegins => ?_⟩
        rcases List.prefix_concat_iff.mp hbegins with heq | hearlier
        · obtain ⟨rfl, rfl⟩ := List.append_singleton_inj.mp heq
          exact hlast
        · exact hkept between later hearlier
    · intro h
      obtain ⟨done, command, rest, heq, hmakes, hkept⟩ := h
      rcases List.eq_nil_or_concat' rest with rfl | ⟨rest, later, rfl⟩
      · obtain ⟨rfl, rfl⟩ := List.append_singleton_inj.mp heq
        exact Or.inl hmakes
      · rw [← List.cons_append, ← List.append_assoc] at heq
        obtain ⟨rfl, rfl⟩ := List.append_singleton_inj.mp heq
        refine Or.inr ⟨⟨done, command, rest, rfl, hmakes, fun between later hbegins => ?_⟩, ?_⟩
        · exact hkept between later (hbegins.trans (List.prefix_append _ _))
        · exact hkept rest last List.prefix_rfl

theorem schemas_edit {f : Scene → Except HostError Scene}
    (hf : ∀ scene, f live.scene = .ok scene → scene.schemas = live.scene.schemas) {α : Type}
    (result : α) : (edit result f live).2.scene.schemas = live.scene.schemas := by
  rcases edit_cases result f live with ⟨scene, hok, heq⟩ | ⟨cause, _, heq⟩
  · rw [heq]
    exact hf scene hok
  · rw [heq]

theorem schemas_after (call : HostCall) :
    (host.after live call).scene.schemas = live.scene.schemas := by
  cases call with
  | create type secondary =>
    change (create type secondary live).2.scene.schemas = _
    rw [create_eq]
    split
    next => rfl
    next => rfl
  | rename other name =>
    refine schemas_edit (fun _ hok => ?_) name
    obtain ⟨_, rfl⟩ := Scene.rename_eq_ok_iff.mp hok
    rfl
  | set other name value =>
    exact schemas_edit (fun _ hok => (Scene.Grows.of_rewrites (Scene.rewrites_of_set hok)).schemas) ()
  | connect source other name =>
    exact schemas_edit
      (fun _ hok => (Scene.Grows.of_rewrites (Scene.rewrites_of_connect hok)).schemas) ()
  | setIndexed other name index value =>
    exact schemas_edit
      (fun _ hok => (Scene.Grows.of_rewrites (Scene.rewrites_of_setIndexed hok)).schemas) ()
  | setTag other key text =>
    exact schemas_edit (fun _ hok => (Scene.same_of_setTag hok).2.1) ()

theorem registered_of_find? {commands : List SceneCommand} {type : String} {schema : Schema}
    (hstart : live.scene.schemas = {})
    (h : (carryOutAll commands live).scene.schemas.find? type = some schema) :
    .register schema ∈ commands := by
  induction commands using List.reverseRecOn with
  | nil =>
    rw [carryOutAll, List.foldl_nil, hstart] at h
    cases h
  | append_singleton commands last ih =>
    rw [List.mem_append, List.mem_singleton]
    rw [carryOutAll_concat] at h
    have hkept : ((carryOutAll commands live).carryOut last).scene.schemas =
        (carryOutAll commands live).scene.schemas → .register schema ∈ commands := fun heq =>
      ih (heq ▸ h)
    cases last with
    | register last =>
      change ((carryOutAll commands live).scene.schemas.insert last.type last).find? type = _ at h
      by_cases htype : type = last.type
      · rw [htype, Table.find?_insert_self] at h
        exact Or.inr (by rw [Option.some.inj h])
      · rw [Table.find?_insert_of_ne _ htype] at h
        exact Or.inl (ih h)
    | addNode type name => exact Or.inl (hkept rfl)
    | declare other name value =>
      refine Or.inl (hkept (schemas_edit (fun _ hok => ?_) ()))
      obtain ⟨_, rfl⟩ := Scene.declare_eq_ok_iff.mp hok
      rfl
    | addRoot id =>
      refine Or.inl (hkept ?_)
      rw [carryOut, Scene.addRoot]
      split
      next => rfl
      next => rfl
    | call call => exact Or.inl (hkept (schemas_after call))

def blank (supply : Supply) : LiveScene := ⟨.empty, supply⟩

/-- In every scene that commands lead to, the views of an attribute agree unless it was left with a
default that is a connection.  Even then the attribute shows every output that is connected to it.  If no
schema has such a default, the views agree everywhere. -/
theorem viewsAgree_carryOutAll_iff (supply : Supply) (commands : List SceneCommand) :
    (∀ node attr, (carryOutAll commands (blank supply)).scene.reads.ViewsAgree node attr ↔
      ¬ (blank supply).LeftPlugged commands node attr) ∧
    (∀ node attr plug,
      (carryOutAll commands (blank supply)).scene.reads.connections node attr = .ok [plug] →
        (carryOutAll commands (blank supply)).scene.reads.get node attr = .ok (.connection plug)) ∧
    ((∀ schema, .register schema ∈ commands → ∀ attr plug,
        schema.attributes.find? attr ≠ some (.connection plug)) →
      ∀ node attr, (carryOutAll commands (blank supply)).scene.reads.ViewsAgree node attr) := by
  have hblank : ∀ node attr, ¬ (blank supply).scene.StoresPlug node attr := by
    intro node attr h
    obtain ⟨slot, plug, hslot, _⟩ := h
    cases hslot
  have hiff : ∀ node attr, (carryOutAll commands (blank supply)).scene.reads.ViewsAgree node attr ↔
      ¬ (blank supply).LeftPlugged commands node attr := fun node attr =>
    Scene.viewsAgree_iff.trans (not_congr (storesPlug_carryOutAll commands (hblank node attr)))
  refine ⟨hiff, fun _ _ _ => Scene.get_of_connections, fun hplain node attr => ?_⟩
  rw [hiff]
  intro h
  obtain ⟨done, command, rest, rfl, hmakes, _⟩ := h
  have hnone : ∀ type, ¬ (carryOutAll done (blank supply)).scene.PlugDefault type attr := by
    intro type hdefault
    obtain ⟨schema, plug, hschema, hplug⟩ := hdefault
    have hregistered : .register schema ∈ done := registered_of_find? rfl hschema
    exact hplain schema (List.mem_append_left _ hregistered) attr plug hplug
  match command, hmakes with
  | .addNode type _, hmakes => exact hnone type hmakes.2
  | .call (.create type _), hmakes => exact hnone type hmakes.2

def counting : Supply := ⟨fun n => .ofNat (n + 1), 0⟩

/-- Registers a layer whose base has a default, and makes one beside a texture. -/
def layerOn (base : Value) : List SceneCommand :=
  [.register (Schema.attr { type := "layer" } "base" base), .addNode "file" "map",
    .call (.create "layer" none)]

def texturedLayer : List SceneCommand :=
  layerOn (.float 0.0) ++ [.call (.connect ⟨.ofNat 1, none⟩ (.ofNat 2) "base")]

/-- A layer that has the texture for the default of its base. -/
def wiredLayer : List SceneCommand := layerOn (.connection ⟨.ofNat 1, none⟩)

theorem texturedLayer_viewsAgree :
    (∀ schema, .register schema ∈ texturedLayer → ∀ attr plug,
      schema.attributes.find? attr ≠ some (.connection plug)) ∧
    (carryOutAll texturedLayer (blank counting)).scene.reads.ViewsAgree (.ofNat 2) "base" ∧
    (carryOutAll texturedLayer (blank counting)).scene.reads.connections (.ofNat 2) "base" =
      .ok [⟨.ofNat 1, none⟩] ∧
    (carryOutAll texturedLayer (blank counting)).scene.reads.get (.ofNat 2) "base" =
      .ok (.connection ⟨.ofNat 1, none⟩) ∧
    ¬ (carryOutAll wiredLayer (blank counting)).scene.reads.ViewsAgree (.ofNat 2) "base" := by
  obtain ⟨_, hshown, hagree⟩ := viewsAgree_carryOutAll_iff counting texturedLayer
  obtain ⟨hiff, _, _⟩ := viewsAgree_carryOutAll_iff counting wiredLayer
  have hplain : ∀ schema, .register schema ∈ texturedLayer → ∀ attr plug,
      schema.attributes.find? attr ≠ some (.connection plug) := by
    intro schema hschema attr plug hfind
    obtain rfl : schema = Schema.attr { type := "layer" } "base" (.float 0.0) := by
      simpa [texturedLayer, layerOn] using hschema
    have hdefault := List.mem_singleton.mp (Table.mem_entries_iff.mpr hfind)
    exact absurd (congrArg Prod.snd hdefault) (by simp [Value.float])
  have hconnected : (carryOutAll texturedLayer (blank counting)).scene.reads.connections
      (.ofNat 2) "base" = .ok [⟨.ofNat 1, none⟩] := by rfl
  have hleft : (blank counting).LeftPlugged wiredLayer (.ofNat 2) "base" :=
    ⟨[.register (Schema.attr { type := "layer" } "base" (.connection ⟨.ofNat 1, none⟩)),
      .addNode "file" "map"], .call (.create "layer" none), [], rfl, ⟨rfl, _, _, rfl, rfl⟩, by simp⟩
  exact ⟨hplain, hagree hplain _ _, hconnected, hshown _ _ _ hconnected,
    fun hdiffer => (hiff _ _).mp hdiffer hleft⟩

/-- The wired layer shows and stores a connection, but nothing is connected to it. -/
theorem wiredLayer_views_differ :
    ¬ (carryOutAll wiredLayer (blank counting)).scene.reads.ViewsAgree (.ofNat 2) "base" ∧
      (carryOutAll wiredLayer (blank counting)).scene.reads.get (.ofNat 2) "base" =
        .ok (.connection ⟨.ofNat 1, none⟩) ∧
      (carryOutAll wiredLayer (blank counting)).scene.reads.connections (.ofNat 2) "base" = .ok [] ∧
      (carryOutAll wiredLayer (blank counting)).scene.reads.getStatic (.ofNat 2) "base" =
        .ok (.connection ⟨.ofNat 1, none⟩) := by
  have hstatic : (carryOutAll wiredLayer (blank counting)).scene.reads.getStatic (.ofNat 2) "base" =
      .ok (.connection ⟨.ofNat 1, none⟩) := by rfl
  exact ⟨fun h => h.getStatic _ hstatic, rfl, rfl, hstatic⟩

end LiveScene

end ShaderMigration
