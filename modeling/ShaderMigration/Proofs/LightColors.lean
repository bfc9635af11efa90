import ShaderMigration.Proofs.MappedColors

namespace ShaderMigration

namespace Scene

theorem mem_nodesOfType_iff {scene : Scene} {type : String} {id : NodeId} :
    id ∈ scene.nodesOfType type ↔
      ∃ key found, scene.nodes.find? key = some found ∧ found.type = type ∧ found.id = id := by
  simp only [nodesOfType, Table.values, List.mem_map, List.mem_filter, beq_iff_eq]
  constructor
  · intro h
    obtain ⟨found, ⟨⟨entry, he, rfl⟩, htype⟩, hid⟩ := h
    exact ⟨entry.1, entry.2, Table.mem_entries_iff.mp he, htype, hid⟩
  · intro h
    obtain ⟨key, found, hfound, htype, hid⟩ := h
    exact ⟨found, ⟨⟨(key, found), Table.mem_entries_iff.mpr hfound, rfl⟩, htype⟩, hid⟩

end Scene

namespace LiveScene.Extends

variable {start later : LiveScene} {touched : List NodeId} {made : List (NodeId × String)}
  (h : start.Extends touched made later)
include h

theorem mem_nodesOfType_iff {id : NodeId} (hid : id ∈ start.scene.nodes.keys) (type : String) :
    id ∈ later.scene.nodesOfType type ↔ id ∈ start.scene.nodesOfType type := by
  rw [Scene.mem_nodesOfType_iff, Scene.mem_nodesOfType_iff]
  constructor
  · intro hh
    obtain ⟨key, found, hfound, htype, heq⟩ := hh
    have hkey : key ∈ later.scene.nodes.keys := Table.mem_keys_iff.mpr ⟨found, hfound⟩
    rw [h.keys, List.mem_append] at hkey
    rcases hkey with hkey | hkey
    · obtain ⟨old, hold⟩ := Table.mem_keys_iff.mp hkey
      obtain ⟨found', hfound', hid', htype', _⟩ := h.kept hold
      obtain rfl := Option.some.inj (hfound'.symm.trans hfound)
      exact ⟨key, old, hold, htype'.symm.trans htype, hid'.symm.trans heq⟩
    · -- a node that was made has its own id, which is no id from before
      obtain ⟨entry, he, rfl⟩ := List.mem_map.mp hkey
      obtain ⟨found', hfound', hid', _⟩ := h.node entry he
      obtain rfl := Option.some.inj (hfound'.symm.trans hfound)
      exact absurd (List.mem_map_of_mem he) (h.not_mem_made (hid'.symm.trans heq ▸ hid))
  · intro hh
    obtain ⟨key, found, hfound, htype, heq⟩ := hh
    obtain ⟨found', hfound', hid', htype', _⟩ := h.kept hfound
    exact ⟨key, found', hfound', htype'.trans htype, hid'.trans heq⟩

/-- No node is made under an id that is mentioned. -/
theorem mem_keys_iff_of_mentions {bound : Nat} (hfresh : start.NextFresh bound)
    (hle : made.length ≤ bound) {id : NodeId} (hm : start.scene.Mentions id) :
    id ∈ later.scene.nodes.keys ↔ id ∈ start.scene.nodes.keys := by
  rw [h.keys, List.mem_append, or_iff_left]
  intro hmade
  rw [h.ids] at hmade
  obtain ⟨i, hi, rfl⟩ := List.mem_map.mp hmade
  exact hfresh.unmentioned i (by rw [List.mem_range] at hi; omega) hm

end LiveScene.Extends

theorem LiveScene.NextFresh.nextUnused {live : LiveScene} {count : Nat}
    (h : live.NextFresh count) : live.NextUnused count where
  absent := fun i hi hm => h.unmentioned i hi (Or.inl hm)
  distinct := fun j hj i hi => h.distinct i j hi hj

/-- How a light stands after some nodes were converted: of what its colour is computed from only the
colour has changed, and that only if the light is among them. -/
structure Settling (start : LiveScene) (light : NodeId) (olds : List NodeId)
    (made : List (NodeId × String)) (later : LiveScene) : Prop where
  extension : ∃ touched, start.Extends touched made later
  temperature : later.scene.slot? light "aiColorTemperature" =
    start.scene.slot? light "aiColorTemperature"
  flag : later.scene.slot? light "aiUseColorTemperature" =
    start.scene.slot? light "aiUseColorTemperature"
  color : later.scene.slot? light "color" = (start.scene.slot? light "color").map fun color =>
    if light ∈ olds then start.scene.settled light color else color

namespace Settling

variable {start : LiveScene} {light : NodeId} {olds : List NodeId} {made : List (NodeId × String)}

theorem refl (start : LiveScene) (light : NodeId) : Settling start light [] [] start where
  extension := ⟨[], .refl start⟩
  temperature := rfl
  flag := rfl
  color := by simp

/-- Whatever else is converted, nothing changes for the light. -/
theorem of_others {mid later : LiveScene} (h : Settling start light olds made mid)
    (hlight : light ∈ start.scene.nodes.keys) {node : NodeId} (hne : node ≠ light)
    {more : List (NodeId × String)} (hextends : mid.Extends [node] more later) :
    Settling start light (olds ++ [node]) (made ++ more) later := by
  obtain ⟨touched, hstart⟩ := h.extension
  have hsame : ∀ attr, later.scene.slot? light attr = mid.scene.slot? light attr := by
    intro attr
    have hfind := hextends.same light (hstart.mem_keys hlight)
      fun hm => hne (List.mem_singleton.mp hm).symm
    unfold Scene.slot?
    rw [hfind]
  refine ⟨⟨_, hstart.trans hextends⟩, (hsame _).trans h.temperature, (hsame _).trans h.flag, ?_⟩
  rw [hsame, h.color]
  simp [Ne.symm hne]

/-- The conversion of the light itself writes back its colour, for the first time or once more. -/
theorem of_light {bound : Nat} {mid : LiveScene} (h : Settling start light olds made mid)
    (hfresh : start.NextFresh bound) (hle : made.length ≤ bound) {scene : Scene}
    (hspares : mid.scene.Spares light ["aiColorTemperature", "aiUseColorTemperature"] scene)
    (hcolor : scene.slot? light "color" =
      (mid.scene.slot? light "color").map (mid.scene.settled light)) :
    Settling start light (olds ++ [light]) (made ++ []) { mid with scene } := by
  obtain ⟨touched, hstart⟩ := h.extension
  refine ⟨⟨_, hstart.trans (.of_changesOnly hspares.changes)⟩,
    (hspares.slots _ (by decide)).trans h.temperature,
    (hspares.slots _ (by decide)).trans h.flag, ?_⟩
  rw [hcolor, h.color, Option.map_map]
  refine Option.map_congr fun color hslot => ?_
  have hsame : ∀ slot : Slot, slot.value = color.value →
      mid.scene.settled light slot = start.scene.settled light slot := by
    intro slot hvalue
    refine Scene.settled_congr h.temperature fun plug hplug => ?_
    have hfeeds : start.scene.Feeds light plug.node :=
      ⟨"color", color, hslot, plug, List.mem_append_left _ (hvalue ▸ hplug), rfl⟩
    exact hstart.mem_keys_iff_of_mentions hfresh hle (Or.inr ⟨light, hfeeds⟩)
  have hlast : light ∈ olds ++ [light] := List.mem_append_right _ (List.mem_singleton.mpr rfl)
  rw [Function.comp_apply, if_pos hlast]
  by_cases hbefore : light ∈ olds
  · rw [if_pos hbefore, hsame _ (Scene.value_settled ..), Scene.settled_settled]
  · rw [if_neg hbefore, hsame color rfl]

end Settling

namespace Arnold

def migrator (transcoder : Option Texture.Transcoder) (workshop : Texture.Workshop) :
    Migrator LiveScene := .inMemory (toRedshift transcoder) workshop

variable (transcoder : Option Texture.Transcoder) (workshop : Texture.Workshop)
  {start : LiveScene} {light : NodeId} {olds : List NodeId} {made : List (NodeId × String)}
  {bound : Nat}

theorem convertNode_light {run : Run LiveScene} (hlight : run.state.scene.PlainLight light) :
    ((migrator transcoder workshop).convertNode false light run).1.replacement? = none ∧
      ∃ scene, ((migrator transcoder workshop).convertNode false light run).2.state =
          { run.state with scene } ∧
        run.state.scene.Spares light ["aiColorTemperature", "aiUseColorTemperature"] scene ∧
          scene.slot? light "color" =
            (run.state.scene.slot? light "color").map (run.state.scene.settled light) := by
  obtain ⟨found, hfound, htype⟩ := hlight.type
  obtain ⟨rule, hrule, hcolors⟩ := colorsInPlace_of_lightTypes transcoder htype
  rw [Migrator.convertNode_of_rule (migrator transcoder workshop)
    (Migrator.nodeType_eq rfl hfound) hrule]
  dsimp only
  rw [Migrator.applyRule_eq _ hcolors.stepless.before, hcolors.target]
  dsimp only
  rw [Migrator.keepNode_eq _ hcolors.stepless.after, if_pos hcolors.inPlace]
  exact ⟨rfl, mapAttributes_color _ light hlight.flag hcolors⟩

/-- The conversion of one node. -/
theorem settling_convertNode (hplain : start.scene.PlainLight light)
    (hfresh : start.NextFresh bound) (node : NodeId) {run : Run LiveScene}
    (h : Settling start light olds made run.state)
    (hle : made.length + ((migrator transcoder workshop).convertNode false node
      run).1.replacement?.toList.length ≤ bound) :
    ∃ more, more.length = ((migrator transcoder workshop).convertNode false node
        run).1.replacement?.toList.length ∧
      Settling start light (olds ++ [node]) (made ++ more)
        ((migrator transcoder workshop).convertNode false node run).2.state := by
  obtain ⟨touched, hstart⟩ := h.extension
  by_cases hnode : node = light
  · subst hnode
    have hlight : run.state.scene.PlainLight node := by
      obtain ⟨found, hfound, htype⟩ := hplain.type
      obtain ⟨found', hfound', _, htype', _⟩ := hstart.kept hfound
      exact ⟨⟨found', hfound', htype' ▸ htype⟩, h.flag ▸ hplain.flag⟩
    obtain ⟨hnone, scene, hstate, hspares, hcolor⟩ :=
      convertNode_light transcoder workshop hlight
    rw [hnone, hstate]
    exact ⟨[], rfl, h.of_light hfresh (by omega) hspares hcolor⟩
  · have hunused := hstart.nextUnused (hfresh.nextUnused.mono hle)
    obtain ⟨more, hlength, hextends⟩ :=
      Migrator.convertNode_extends rfl (writesResult_toRedshift transcoder) false node hunused
    obtain ⟨found, hfound, _⟩ := hplain.type
    have hkey : light ∈ start.scene.nodes.keys := Table.mem_keys_iff.mpr ⟨found, hfound⟩
    exact ⟨more, hlength, h.of_others hkey hnode hextends⟩

theorem settling_convertNodes (hplain : start.scene.PlainLight light)
    (hfresh : start.NextFresh bound) (pending : Migrator.Pending) (nodes : List NodeId)
    {run : Run LiveScene} (h : Settling start light olds made run.state)
    (hle : made.length + (replacementsOf ((migrator transcoder workshop).convertNodes pending
      nodes run).1).length ≤ bound) :
    ∃ more, more.length = (replacementsOf ((migrator transcoder workshop).convertNodes pending
        nodes run).1).length ∧
      Settling start light (olds ++ nodes) (made ++ more)
        ((migrator transcoder workshop).convertNodes pending nodes run).2.state := by
  induction nodes generalizing olds made pending run with
  | nil =>
    rw [List.append_nil]
    exact ⟨[], rfl, (List.append_nil made).symm ▸ h⟩
  | cons node rest ih =>
    rw [Migrator.convertNodes_cons, replacementsOf_cons, List.length_append] at hle ⊢
    obtain ⟨first, hfirst, hmid⟩ := settling_convertNode transcoder workshop
      hplain hfresh node h
      (Nat.le_trans (Nat.add_le_add_left (Nat.le_add_right _ _) _) hle)
    obtain ⟨others, hothers, hlater⟩ := ih (pending.except node) hmid (by
      rw [List.length_append, hfirst, Nat.add_assoc]
      exact hle)
    refine ⟨first ++ others, ?_, ?_⟩
    · rw [List.length_append, hfirst, hothers]
      rfl
    · rw [← List.append_assoc]
      simpa only [List.append_assoc, List.singleton_append] using hlater

/-- The light is converted in the turn of a type exactly if it is listed under the type. -/
theorem settling_convertTypes (hplain : start.scene.PlainLight light)
    (hfresh : start.NextFresh bound) (types : List (String × Rule LiveScene))
    {run : Run LiveScene} (h : Settling start light olds made run.state)
    (hle : made.length + (replacementsOf ((migrator transcoder workshop).convertTypes
      types run).1).length ≤ bound) :
    ∃ listed more, more.length = (replacementsOf ((migrator transcoder workshop).convertTypes
        types run).1).length ∧
      (light ∈ listed ↔ ∃ type ∈ Entries.keys types, light ∈ start.scene.nodesOfType type) ∧
      Settling start light (olds ++ listed) (made ++ more)
        ((migrator transcoder workshop).convertTypes types run).2.state := by
  induction types generalizing olds made run with
  | nil =>
    refine ⟨[], [], rfl, by simp, ?_⟩
    rw [List.append_nil, List.append_nil]
    exact h
  | cons entry rest ih =>
    rw [Migrator.convertTypes_cons, replacementsOf_append, List.length_append] at hle ⊢
    obtain ⟨touched, hstart⟩ := h.extension
    obtain ⟨found, hfound, _⟩ := hplain.type
    have hkey : light ∈ start.scene.nodes.keys := Table.mem_keys_iff.mpr ⟨found, hfound⟩
    obtain ⟨first, hfirst, hmid⟩ := settling_convertNodes transcoder workshop
      hplain hfresh _ (run.state.scene.nodesOfType entry.1) h
      (Nat.le_trans (Nat.add_le_add_left (Nat.le_add_right _ _) _) hle)
    obtain ⟨listed, others, hothers, hlisted, hlater⟩ := ih hmid (by
      rw [List.length_append, hfirst, Nat.add_assoc]
      exact hle)
    refine ⟨run.state.scene.nodesOfType entry.1 ++ listed, first ++ others, ?_, ?_, ?_⟩
    · rw [List.length_append, hfirst, hothers]
      rfl
    · rw [List.mem_append, hstart.mem_nodesOfType_iff hkey, hlisted, Entries.keys_cons]
      simp
    · rw [← List.append_assoc, ← List.append_assoc]
      exact hlater

def Listed (transcoder : Option Texture.Transcoder) (scene : Scene) (light : NodeId) : Prop :=
  ∃ type ∈ (toRedshift transcoder : Sheet LiveScene).keys, light ∈ scene.nodesOfType type

instance (transcoder : Option Texture.Transcoder) (scene : Scene) (light : NodeId) :
    Decidable (Listed transcoder scene light) :=
  inferInstanceAs (Decidable (∃ type ∈ (toRedshift transcoder : Sheet LiveScene).keys, _))

/-- A light that is stored under its own id is listed under its type. -/
theorem listed_of_keyed (transcoder : Option Texture.Transcoder) {scene : Scene}
    (hkeyed : scene.Keyed) (hlight : scene.PlainLight light) : Listed transcoder scene light := by
  obtain ⟨found, hfound, htype⟩ := hlight.type
  obtain ⟨rule, hrule, _⟩ := colorsInPlace_of_lightTypes transcoder htype
  exact ⟨found.type, Table.mem_keys_iff.mpr ⟨rule, hrule⟩,
    hkeyed.mem_nodesOfType_iff.mpr ⟨found, hfound, rfl⟩⟩

variable {transcoder workshop}

/-- A conversion of all nodes keeps the stored colour of a light without temperature, but it leaves
nothing else in the attribute: where the colour is written back, the slot stays as it was only if
nothing drives it but what is stored. -/
theorem color_of_autoConvert {namer : Namer} {live : LiveScene} {report : ConversionReport}
    {after : Run LiveScene} (hlight : live.scene.PlainLight light)
    (hrun : (Migrator.inMemory (toRedshift transcoder) workshop).autoConvert ⟨namer, live⟩ =
      (report, after))
    (hfresh : live.NextFresh report.converted) :
    (after.state.scene.slot? light "color" = (live.scene.slot? light "color").map fun color =>
        if Listed transcoder live.scene light then live.scene.settled light color else color) ∧
      (after.state.scene.slot? light "color").map Slot.value =
        (live.scene.slot? light "color").map Slot.value ∧
      (after.state.scene.slot? light "color" = live.scene.slot? light "color" ↔
        ∀ color, live.scene.slot? light "color" = some color → Listed transcoder live.scene light →
          (live.scene.slot? light "aiColorTemperature").isSome → live.scene.TakesBack light color →
            color.input = color.value.plug?) := by
  have hconversions : ((migrator transcoder workshop).convertTypes (toRedshift transcoder).entries
      ⟨namer, live⟩).1 = report.conversions := congrArg (fun result => result.1.conversions) hrun
  have hafter : ((migrator transcoder workshop).convertTypes (toRedshift transcoder).entries
      ⟨namer, live⟩).2 = after := congrArg Prod.snd hrun
  have hstart : Settling live light [] [] (Run.mk namer live).state := .refl live light
  obtain ⟨listed, made, _, hlisted, hsettling⟩ := settling_convertTypes transcoder workshop hlight
    hfresh (toRedshift transcoder).entries hstart (by simp [hconversions, length_replacementsOf])
  have hiff : light ∈ [] ++ listed ↔ Listed transcoder live.scene light := by
    rw [List.nil_append]
    exact hlisted
  have hcolor := hsettling.color
  rw [hafter] at hcolor
  simp only [hiff] at hcolor
  refine ⟨hcolor, ?_, ?_⟩
  · rw [hcolor, Option.map_map]
    refine Option.map_congr fun color _ => ?_
    rw [Function.comp_apply]
    split
    next => exact live.scene.value_settled light color
    next => rfl
  · rw [hcolor]
    cases live.scene.slot? light "color" with
    | none => simp
    | some color =>
      by_cases hlisted : Listed transcoder live.scene light
      · simp [hlisted, Scene.settled_eq_self_iff]
      · simp [hlisted]

/-- A sun whose colour a map of the sky drives, over a stored grey, and that uses no temperature. -/
def mappedSun : LiveScene where
  scene :=
    { nodes := .ofPairs
        [(.ofNat 1, ⟨.ofNat 1, "file", none, "sky_map", {}, .empty⟩),
          (.ofNat 2, ⟨.ofNat 2, "directionalLight", none, "sun", .ofPairs
            [("color", ⟨.color (Color.grey 0.5), some ⟨.ofNat 1, none⟩⟩),
              ("aiUseColorTemperature", ⟨.bool false, none⟩),
              ("aiColorTemperature", ⟨.float 6500.0, none⟩)], .empty⟩)]
      roots := [.ofNat 2] }
  supply := ⟨fun n => .ofNat (n + 3), 0⟩

def sunRun : ConversionReport × Run LiveScene :=
  (Migrator.inMemory (toRedshift none) ⟨{}, {}, fun _ _ => .ok (.code 0)⟩).autoConvert
    ⟨{}, mappedSun⟩

theorem mappedSun_plainLight : mappedSun.scene.PlainLight (.ofNat 2) :=
  ⟨⟨_, rfl, by decide⟩, _, rfl, rfl⟩

/-- The stored grey is kept, but the slot is not as it was. -/
theorem mappedSun_settled :
    (sunRun.2.state.scene.slot? (.ofNat 2) "color").map Slot.value =
        (mappedSun.scene.slot? (.ofNat 2) "color").map Slot.value ∧
      sunRun.2.state.scene.slot? (.ofNat 2) "color" ≠ mappedSun.scene.slot? (.ofNat 2) "color" := by
  have hkeyed : mappedSun.scene.Keyed := by decide
  have htakes : mappedSun.scene.TakesBack (.ofNat 2)
      ⟨.color (Color.grey 0.5), some ⟨.ofNat 1, none⟩⟩ :=
    ⟨by simp [Value.plugs, Value.color], by simp [Value.plug?, Value.color]⟩
  obtain ⟨_, hvalue, hiff⟩ := color_of_autoConvert mappedSun_plainLight (Prod.eta sunRun).symm
    (by decide +kernel)
  refine ⟨hvalue, fun heq => ?_⟩
  cases hiff.mp heq _ rfl (listed_of_keyed none hkeyed mappedSun_plainLight) rfl htakes

/-- After the conversion the map of the sky no longer drives the colour. -/
theorem mappedSun_loses_map : mappedSun.scene.PlainLight (.ofNat 2) ∧
    mappedSun.scene.slot? (.ofNat 2) "color" =
      some ⟨.color (Color.grey 0.5), some ⟨.ofNat 1, none⟩⟩ ∧
    sunRun.2.state.scene.slot? (.ofNat 2) "color" = some ⟨.color (Color.grey 0.5), none⟩ :=
  ⟨mappedSun_plainLight, rfl, by rfl⟩

end Arnold

end ShaderMigration
