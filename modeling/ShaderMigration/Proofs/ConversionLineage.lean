import ShaderMigration.Proofs.ConversionInvariant
import ShaderMigration.Proofs.PlugGraph
import ShaderMigration.Proofs.ReplacementChain
import ShaderMigration.Scene.Live

namespace ShaderMigration

open Replacement (origin Chronological)

def Scene.Mentions (scene : Scene) (id : NodeId) : Prop :=
  id ∈ scene.nodes.keys ∨ ∃ a, scene.Feeds a id

/-- The next ids of the supply are new to the scene, and all different. -/
structure LiveScene.NextFresh (live : LiveScene) (count : Nat) : Prop where
  unmentioned : ∀ i, i < count → ¬ live.scene.Mentions (live.supply.id (live.supply.drawn + i))
  distinct : ∀ i j, i < j → j < count →
    live.supply.id (live.supply.drawn + i) ≠ live.supply.id (live.supply.drawn + j)

theorem Scene.mentions_iff {scene : Scene} {id : NodeId} : scene.Mentions id ↔
    id ∈ scene.nodes.keys ∨ ∃ entry ∈ scene.nodes.entries,
      ∃ slot ∈ entry.2.attributes.entries, ∃ plug ∈ slot.2.plugs, plug.node = id := by
  refine or_congr_right ?_
  constructor
  · intro h
    obtain ⟨a, hf⟩ := h
    obtain ⟨entry, he, _, hslot⟩ := feeds_iff.mp hf
    exact ⟨entry, he, hslot⟩
  · intro h
    obtain ⟨entry, he, hslot⟩ := h
    exact ⟨entry.1, feeds_iff.mpr ⟨entry, he, rfl, hslot⟩⟩

instance (scene : Scene) (id : NodeId) : Decidable (scene.Mentions id) :=
  decidable_of_iff _ Scene.mentions_iff.symm

theorem LiveScene.nextFresh_iff {live : LiveScene} {count : Nat} : live.NextFresh count ↔
    (∀ i, i < count → ¬ live.scene.Mentions (live.supply.id (live.supply.drawn + i))) ∧
      ∀ j, j < count → ∀ i, i < j →
        live.supply.id (live.supply.drawn + i) ≠ live.supply.id (live.supply.drawn + j) :=
  ⟨fun h => ⟨h.unmentioned, fun j hj i hi => h.distinct i j hi hj⟩,
    fun h => ⟨h.1, fun i j hi hj => h.2 j hj i hi⟩⟩

instance (live : LiveScene) (count : Nat) : Decidable (live.NextFresh count) :=
  decidable_of_iff _ LiveScene.nextFresh_iff.symm

/-- How a scene under conversion stands to the scene at the start: each dependency comes from one of that
scene, along the map of nodes to where their chains of replacements start. -/
structure Lineage (start : LiveScene) (pairs : List Replacement) (scene : Scene) : Prop where
  keyed : scene.Keyed
  grows : start.scene.Grows scene
  mentions : ∀ id, scene.Mentions id →
    start.scene.Mentions id ∨ ∃ i < pairs.length, id = start.supply.id (start.supply.drawn + i)
  lifts : ∀ a b, scene.Feeds a b → start.scene.Feeds (origin pairs a) (origin pairs b)
  present : ∀ pair ∈ pairs, pair.old ∈ scene.nodes.keys ∧ pair.new ∈ scene.nodes.keys
  chronological : Chronological pairs

namespace Lineage

variable {start : LiveScene} {pairs : List Replacement} {scene scene' : Scene}

theorem refl (hkeyed : start.scene.Keyed) : Lineage start [] start.scene where
  keyed := hkeyed
  grows := .refl _
  mentions := fun _ h => Or.inl h
  lifts := fun _ _ h => h
  present := by simp
  chronological := ⟨List.Pairwise.nil, by simp⟩

theorem acyclic (h : Lineage start pairs scene) (ha : start.scene.Acyclic) : scene.Acyclic :=
  ha.of_lift (origin pairs) h.lifts

theorem of_rewrites (h : Lineage start pairs scene) {node : NodeId} {attr : String}
    {offered : List Plug} (hr : scene.Rewrites scene' node attr offered)
    (ho : ∀ plug ∈ offered, start.scene.Feeds (origin pairs node) (origin pairs plug.node)) :
    Lineage start pairs scene' := by
  have hkeys : scene'.nodes.keys = scene.nodes.keys := by
    obtain ⟨_, _, _, _, rfl, _⟩ := hr
    exact Table.keys_modify _ _ _
  refine ⟨h.keyed.of_rewrites hr, h.grows.trans (.of_rewrites hr), ?_, ?_, ?_, h.chronological⟩
  · intro id hm
    refine h.mentions id ?_
    rcases hm with hm | ⟨a, hf⟩
    · exact Or.inl (hkeys ▸ hm)
    · rcases Scene.feeds_of_rewrites hr hf with hf | ⟨_, plug, hp, rfl⟩
      · exact Or.inr ⟨a, hf⟩
      · exact Or.inl (hr.1 plug hp)
  · intro a b hf
    rcases Scene.feeds_of_rewrites hr hf with hf | ⟨rfl, plug, hp, rfl⟩
    · exact h.lifts a b hf
    · exact ho plug hp
  · exact hkeys ▸ h.present

theorem of_rename (h : Lineage start pairs scene) {node : NodeId} {name : String}
    (hr : scene.rename node name = .ok scene') : Lineage start pairs scene' := by
  have hkeys : scene'.nodes.keys = scene.nodes.keys := by
    obtain ⟨_, rfl⟩ := Scene.rename_eq_ok_iff.mp hr
    exact Table.keys_modify _ _ _
  refine ⟨h.keyed.of_rename hr, h.grows.trans (.of_rename hr), ?_, ?_, ?_, h.chronological⟩
  · intro id hh
    rcases hh with hm | ⟨a, hf⟩
    · exact h.mentions id (Or.inl (hkeys ▸ hm))
    · exact h.mentions id (Or.inr ⟨a, Scene.feeds_of_rename hr hf⟩)
  · exact fun a b hf => h.lifts a b (Scene.feeds_of_rename hr hf)
  · exact hkeys ▸ h.present

theorem not_mentions_next {bound : Nat} (h : Lineage start pairs scene)
    (hfresh : start.NextFresh bound) (hlt : pairs.length < bound) :
    ¬ scene.Mentions (start.supply.id (start.supply.drawn + pairs.length)) := by
  intro hm
  rcases h.mentions _ hm with hm | ⟨i, hi, heq⟩
  · exact hfresh.unmentioned _ hlt hm
  · exact hfresh.distinct i _ hi hlt heq.symm

/-- A new node under the next id leads back to the node that it is to replace. -/
theorem of_create {bound : Nat} (h : Lineage start pairs scene) (hfresh : start.NextFresh bound)
    (hlt : pairs.length < bound) (hschemas : start.scene.SchemasPlugFree) {old : NodeId}
    (hold : old ∈ scene.nodes.keys) {type : String} {secondary : Option String}
    (hc : scene.create (start.supply.id (start.supply.drawn + pairs.length)) type secondary =
      .ok scene') :
    Lineage start (pairs ++ [⟨old, start.supply.id (start.supply.drawn + pairs.length)⟩])
      scene' := by
  have hnew := h.not_mentions_next hfresh hlt
  generalize hid : start.supply.id (start.supply.drawn + pairs.length) = new at hnew hc ⊢
  obtain ⟨_, rfl⟩ := Scene.create_eq_ok_iff.mp hc
  have hnot : new ∉ scene.nodes.keys := fun hm => hnew (Or.inl hm)
  have hplugs : scene.SchemasPlugFree := by
    intro type schema hs
    exact hschemas type schema (h.grows.schemas ▸ hs)
  have hne : ∀ id ∈ scene.nodes.keys, new ≠ id := fun id hm heq => hnot (heq ▸ hm)
  have hkeys := Scene.keys_addNode hnot type
    (type ++ toString ((scene.nodesOfType type).length + 1)) secondary
  have hgrown : scene.Grows _ := .of_addNode hnot type
    (type ++ toString ((scene.nodesOfType type).length + 1)) secondary
  refine ⟨h.keyed.of_addNode _ _ _ _, h.grows.trans hgrown, ?_, ?_, ?_, ?_⟩
  · have hlater : ∀ id, scene.Mentions id → start.scene.Mentions id ∨
        ∃ i < pairs.length + 1, id = start.supply.id (start.supply.drawn + i) := by
      intro id hm
      refine (h.mentions id hm).imp_right ?_
      intro hh
      obtain ⟨i, hi, heq⟩ := hh
      exact ⟨i, by omega, heq⟩
    rw [List.length_append, List.length_singleton]
    intro id hh
    rcases hh with hm | ⟨a, hf⟩
    · rw [hkeys, List.mem_append, List.mem_singleton] at hm
      rcases hm with hm | rfl
      · exact hlater id (Or.inl hm)
      · exact Or.inr ⟨pairs.length, by omega, hid.symm⟩
    · exact hlater id (Or.inr ⟨a, Scene.feeds_of_addNode hplugs hf⟩)
  · -- the new node depends on nothing, and nothing depends on it
    intro a b hf
    have hold := Scene.feeds_of_addNode hplugs hf
    have ha : a ≠ new := fun heq => hnot (heq ▸ Scene.mem_keys_of_feeds hold)
    have hb : b ≠ new := fun heq => hnew (Or.inr ⟨a, heq ▸ hold⟩)
    rw [Replacement.origin_concat, Replacement.origin_concat, if_neg ha, if_neg hb]
    exact h.lifts a b hold
  · intro pair hp
    rcases List.mem_append.mp hp with hp | hp
    · obtain ⟨hold, hnew⟩ := h.present pair hp
      exact ⟨hgrown.mem_keys hold, hgrown.mem_keys hnew⟩
    · rw [List.mem_singleton.mp hp]
      exact ⟨hgrown.mem_keys hold, hkeys ▸ List.mem_append_right _ (List.mem_singleton.mpr rfl)⟩
  · refine Replacement.chronological_concat_iff.mpr ⟨h.chronological, ?_, hne old hold⟩
    intro earlier he
    obtain ⟨hold, hnew⟩ := h.present earlier he
    exact ⟨hne _ hold, hne _ hnew⟩

end Lineage

/-- As long as at most `bound` replacements were made, the scene keeps its lineage and whatever
`mid` had; every replacement has drawn one id. -/
def LineageUpTo (start : LiveScene) (bound : Nat) (mid : Scene) (pairs : List Replacement)
    (live : LiveScene) : Prop :=
  live.supply = { start.supply with drawn := start.supply.drawn + pairs.length } ∧
    (pairs.length ≤ bound → Lineage start pairs live.scene ∧ mid.Grows live.scene)

/-- Every plug of the value stands for a dependency that the origin of the node had at the start. -/
def Inherited (start : LiveScene) (bound : Nat) (pairs : List Replacement) (old : NodeId)
    (value : Value) : Prop :=
  ∀ plug ∈ value.plugs, pairs.length ≤ bound →
    start.scene.Feeds (origin pairs old) (origin pairs plug.node)

section Kept

variable {start : LiveScene} {bound : Nat} {mid : Scene} {pairs : List Replacement}

theorem LineageUpTo.of_edit {live : LiveScene} (h : LineageUpTo start bound mid pairs live)
    {α : Type} {result : α} {f : Scene → Except HostError Scene}
    (hf : ∀ scene', f live.scene = .ok scene' → pairs.length ≤ bound →
      Lineage start pairs scene' ∧ live.scene.Grows scene') :
    LineageUpTo start bound mid pairs (LiveScene.edit result f live).2 := by
  rcases LiveScene.edit_cases result f live with ⟨scene', hok, heq⟩ | ⟨cause, _, heq⟩
  · rw [heq]
    refine ⟨h.1, fun hle => ?_⟩
    obtain ⟨hlineage, hgrows⟩ := hf scene' hok hle
    exact ⟨hlineage, (h.2 hle).2.trans hgrows⟩
  · rw [heq]
    exact h

theorem mapping_keeps_lineage {old new : NodeId}
    (horigin : pairs.length ≤ bound → ∀ live, LineageUpTo start bound mid pairs live →
      origin pairs new = origin pairs old) :
    Mapping.Keeps LiveScene.host old new (LineageUpTo start bound mid pairs)
      (Inherited start bound pairs old) where
  get := fun hs hget plug hp hle => (hs.2 hle).1.lifts _ _ (Scene.feeds_of_get hget hp)
  getStatic := fun hs hget plug hp hle => (hs.2 hle).1.lifts _ _ (Scene.feeds_of_getStatic hget hp)
  connections := by
    intro live attr plugs hs hplugs plug hplug other hother hle
    have hsame : other = plug := by simpa [Value.plugs] using hother
    subst hsame
    exact (hs.2 hle).1.lifts _ _ (Scene.feeds_of_connections hplugs hplug)
  connect := by
    intro live plug attr hs hplug
    refine hs.of_edit fun scene' hok hle => ?_
    have hr := Scene.rewrites_of_connect hok
    refine ⟨(hs.2 hle).1.of_rewrites hr ?_, .of_rewrites hr⟩
    intro other hother
    rw [horigin hle live hs]
    exact hplug other (by simpa [Value.plugs] using hother) hle
  set := by
    intro live attr value hs hvalue
    refine hs.of_edit fun scene' hok hle => ?_
    have hr := Scene.rewrites_of_set hok
    refine ⟨(hs.2 hle).1.of_rewrites hr ?_, .of_rewrites hr⟩
    intro plug hp
    rw [horigin hle live hs]
    exact hvalue plug hp hle

/-- The operations of a conversion keep the lineage, with ids fresh as they are drawn. -/
theorem conversion_keeps_lineage (hschemas : start.scene.SchemasPlugFree)
    (hfresh : start.NextFresh bound) :
    Migrator.Keeps LiveScene.host (LineageUpTo start bound mid) (Inherited start bound) where
  onto := fun _ _ => mapping_keeps_lineage fun _ _ _ => rfl
  fill := fun hp => mapping_keeps_lineage fun hle _ h => (h.2 hle).1.chronological.origin_eq hp
  rename := by
    intro pairs live node name hs
    refine hs.of_edit fun scene' hok hle => ?_
    exact ⟨(hs.2 hle).1.of_rename hok, .of_rename hok⟩
  create := by
    intro pairs live old type target secondary new live' hs htype hcreate
    rcases LiveScene.create_cases target secondary live with ⟨scene', hok, heq⟩ | ⟨cause, heq⟩
    · obtain ⟨hnew, rfl⟩ := Prod.mk.inj (heq.symm.trans hcreate)
      -- every replacement so far has drawn one id
      have hnext : live.supply.next = start.supply.id (start.supply.drawn + pairs.length) := by
        rw [hs.1]
        rfl
      have hid : start.supply.id (start.supply.drawn + pairs.length) = new :=
        hnext ▸ Except.ok.inj hnew
      rw [hnext] at hok
      refine ⟨?_, fun hle => ?_⟩
      · simp only [Supply.rest, hs.1, List.length_append, List.length_singleton]
        rfl
      · have hlt : pairs.length < bound := by
          simp only [List.length_append, List.length_singleton] at hle
          omega
        obtain ⟨hlineage, hgrows⟩ := hs.2 (by omega)
        obtain ⟨found, hfound, _⟩ := except_map_eq_ok_iff.mp htype
        have hold := Table.mem_keys_iff.mpr ⟨found, Scene.node_eq_ok_iff.mp hfound⟩
        have hlater := hlineage.of_create hfresh hlt hschemas hold hok
        have hnot := hlineage.not_mentions_next hfresh hlt
        obtain ⟨_, rfl⟩ := Scene.create_eq_ok_iff.mp hok
        exact ⟨hid ▸ hlater, hgrows.trans (.of_addNode (fun hm => hnot (Or.inl hm)) _ _ _)⟩
    · cases heq.symm.trans hcreate
  refuse := by
    intro pairs live target secondary cause live' hs hcreate
    rcases LiveScene.create_cases target secondary live with ⟨scene', _, heq⟩ | ⟨cause', heq⟩
    · cases heq.symm.trans hcreate
    · obtain ⟨_, rfl⟩ := Prod.mk.inj (heq.symm.trans hcreate)
      exact hs

/-- The nodes that a run over distinct types converts differ, and each has one of the types. -/
theorem nodup_olds_convertTypes (migrator : Migrator LiveScene)
    (hhost : migrator.host = LiveScene.host)
    (hsheet : ∀ entry ∈ migrator.sheet.entries, Migrator.Tame (Inherited start bound) entry.2)
    (hschemas : start.scene.SchemasPlugFree) (hfresh : start.NextFresh bound)
    (types : List (String × Rule LiveScene)) (htypes : (Entries.keys types).Nodup)
    {run : Run LiveScene} (hs : LineageUpTo start bound run.state.scene pairs run.state)
    (hle : (pairs ++ replacementsOf (migrator.convertTypes types run).1).length ≤ bound) :
    ((migrator.convertTypes types run).1.map NodeConversion.old).Nodup ∧
      ∀ old ∈ (migrator.convertTypes types run).1.map NodeConversion.old,
        ∀ found, run.state.scene.nodes.find? old = some found →
          found.type ∈ Entries.keys types := by
  induction types generalizing pairs run with
  | nil => exact ⟨List.nodup_nil, fun _ hm => absurd hm List.not_mem_nil⟩
  | cons entry rest ih =>
    obtain ⟨hentry, hrest⟩ := List.nodup_cons.mp htypes
    rw [Migrator.convertTypes_cons] at hle ⊢
    dsimp only at hle ⊢
    rw [replacementsOf_append, ← List.append_assoc] at hle
    have hkeep := Migrator.keeps_convertType (hhost ▸ conversion_keeps_lineage hschemas hfresh)
      hsheet entry.1 entry.2 hs
    have holds := Migrator.olds_convertType hsheet entry.1 entry.2 run
    rw [hhost] at holds
    generalize migrator.convertType entry.1 entry.2 run = first at hle hkeep holds ⊢
    obtain ⟨conversions, later⟩ := first
    dsimp only at hle hkeep holds ⊢
    have hbound : (pairs ++ replacementsOf conversions).length ≤ bound := by
      rw [List.length_append] at hle
      omega
    have hkeyed := (hs.2 (by rw [List.length_append] at hbound; omega)).1.keyed
    obtain ⟨hlineage, hgrows⟩ := hkeep.2 hbound
    obtain ⟨hnodup, hof⟩ := ih hrest ⟨hkeep.1, fun _ => ⟨hlineage, .refl _⟩⟩ hle
    -- a node keeps its type, so one converted for a later type is none of the first type
    have hlater : ∀ old ∈ (migrator.convertTypes rest later).1.map NodeConversion.old,
        ∀ found, run.state.scene.nodes.find? old = some found → found.type ∈ Entries.keys rest := by
      intro old hm found hf
      obtain ⟨found', hf', _, htype, _⟩ := hgrows.node hf
      exact htype ▸ hof old hm found' hf'
    rw [List.map_append, holds]
    refine ⟨List.nodup_append.mpr ⟨hkeyed.nodup_nodesOfType entry.1, hnodup, ?_⟩, ?_⟩
    · intro old hm other hother h
      obtain rfl := h
      obtain ⟨found, hf, htype⟩ := hkeyed.mem_nodesOfType_iff.mp hm
      exact hentry (htype ▸ hlater old hother found hf)
    · intro old hm found hf
      rcases List.mem_append.mp hm with hm | hm
      · obtain ⟨found', hf', htype⟩ := hkeyed.mem_nodesOfType_iff.mp hm
        rw [hf', Option.some.injEq] at hf
        exact List.mem_cons.mpr (Or.inl (hf ▸ htype))
      · exact List.mem_cons_of_mem _ (hlater old hm found hf)

end Kept

def Migrator.inMemory (sheet : Sheet LiveScene) (workshop : Texture.Workshop) :
    Migrator LiveScene :=
  { host := LiveScene.host, sheet, workshop }

theorem Sheet.PlugFree.tame {σ : Type} {sheet : Sheet σ} (h : Sheet.PlugFree sheet)
    (start : LiveScene) (bound : Nat) :
    ∀ entry ∈ sheet.entries, Migrator.Tame (Inherited start bound) entry.2 := by
  intro entry he
  have hrule := h entry he
  exact ⟨hrule.before, hrule.after, fun pairs old => hrule.respects _⟩

/-- After the conversion of all nodes the pairs of different nodes are chronological, no node was
replaced twice, and the scene has its lineage. -/
theorem lineage_of_autoConvert {sheet : Sheet LiveScene} {workshop : Texture.Workshop}
    {run after : Run LiveScene} {report : ConversionReport} (hsheet : Sheet.PlugFree sheet)
    (hkeyed : run.state.scene.Keyed) (hschemas : run.state.scene.SchemasPlugFree)
    (hrun : (Migrator.inMemory sheet workshop).autoConvert run = (report, after))
    (hfresh : run.state.NextFresh report.converted) :
    Lineage run.state (Cleanup.replaced report.pairs) after.state.scene ∧
      ((Cleanup.replaced report.pairs).map Replacement.old).Nodup := by
  have hstart : LineageUpTo run.state report.converted run.state.scene [] run.state :=
    ⟨rfl, fun _ => ⟨.refl hkeyed, .refl _⟩⟩
  have htame := hsheet.tame run.state report.converted
  have hkeep := Migrator.keeps_autoConvert (Migrator.inMemory sheet workshop)
    (conversion_keeps_lineage hschemas hfresh) htame run hstart
  have hlength := length_replacementsOf report
  have holds := nodup_olds_convertTypes (Migrator.inMemory sheet workshop) rfl htame
    hschemas hfresh sheet.entries sheet.nodup hstart
  rw [hrun] at hkeep
  have hconversions : ((Migrator.inMemory sheet workshop).convertTypes sheet.entries run).1 =
      report.conversions := congrArg (fun result => result.1.conversions) hrun
  rw [hconversions, List.nil_append] at holds
  have hlineage := (hkeep.2 (Nat.le_of_eq hlength)).1
  have hpairs := replaced_pairs_eq hlineage.chronological.apart
  rw [hpairs]
  exact ⟨hlineage, (holds (Nat.le_of_eq hlength)).1.sublist (map_old_replacementsOf_sublist _)⟩

/-- Turns phong shaders into blinn shaders, and these into standard ones. -/
def phongByStages : Sheet LiveScene :=
  .ofPairs
    [("phong", ((Rule.replacing "blinn").rename "color" "color").computed "matte" "glossy"
        (.ofExpr .negation)),
      ("blinn", ((Rule.replacing "standard").rename "color" "color").computed "matte" "glossy"
        (.constant (.bool true)))]

def stagedRun : ConversionReport × Run LiveScene :=
  (Migrator.inMemory phongByStages ⟨{}, {}, fun _ _ => .ok (.code 0)⟩).autoConvert ⟨{}, twiceShaded⟩

theorem stagedRun_eq :
    (Migrator.inMemory phongByStages ⟨{}, {}, fun _ _ => .ok (.code 0)⟩).autoConvert
      ⟨{}, twiceShaded⟩ = (stagedRun.1, stagedRun.2) := (Prod.eta stagedRun).symm

theorem olds_stagedRun : (Cleanup.replaced stagedRun.1.pairs).map Replacement.old =
    [.ofNat 2, .ofNat 4] := by decide +kernel

theorem fresh_stagedRun : twiceShaded.NextFresh stagedRun.1.converted := by decide +kernel

theorem phongByStages_plugFree : Sheet.PlugFree phongByStages := by
  have hrule : ∀ target converter, Converter.PlugFree converter → Rule.PlugFree
      (((Rule.replacing target : Rule LiveScene).rename "color" "color").computed "matte" "glossy"
        converter) := by
    intro target converter hc
    refine ⟨rfl, rfl, ?_⟩
    intro entry he
    have hentry : entry ∈ [("color", AttributeRule.rename "color"),
        ("matte", AttributeRule.computed (.ofPairs [("glossy", converter)]))] := he
    rcases List.mem_pair.mp hentry with rfl | rfl
    · trivial
    · intro found hfound
      have hsame : found ∈ [("glossy", converter)] := hfound
      rw [List.mem_singleton.mp hsame]
      exact hc
  intro entry he
  rcases List.mem_pair.mp he with rfl | rfl
  · exact hrule "blinn" _ (.ofExpr (by simp [Expr.literals]))
  · exact hrule "standard" _ (.constant rfl)

end ShaderMigration
