import ShaderMigration.Proofs.ConversionTurns

namespace ShaderMigration

namespace Namer

def forgetting (namer : Namer) : Namer := { policy := namer.policy }

/-- Every name on record is the name of a node. -/
def Held (namer : Namer) (scene : Scene) : Prop :=
  ∀ name ∈ namer.issued, ∃ id, scene.name? id = some name

theorem claim_forgetting (namer : Namer) (taken : List String)
    (h : namer.policy = .unique → namer.issued ⊆ taken) (candidate oldName : String) :
    (namer.claim candidate oldName taken).1 =
      (namer.forgetting.claim candidate oldName taken).1 := by
  unfold claim forgetting
  cases hpolicy : namer.policy with
  | verbatim => rfl
  | unique =>
    refine freeName_congr (fun name => ?_) candidate
    have hissued : name ∈ namer.issued → name ∈ taken := fun hm => h hpolicy hm
    simp only [List.cons_append, List.mem_cons, List.mem_append, List.nil_append]
    tauto

/-- Names that other nodes have are taken, whether they are on record or not. -/
theorem label_forgetting {namer : Namer} {live : LiveScene} (old : NodeId) {new : NodeId}
    (h : ∀ name ∈ namer.issued, ∃ id, id ≠ new ∧ live.scene.name? id = some name)
    (token : String) :
    (namer.label LiveScene.host old new token live).1 =
        (namer.forgetting.label LiveScene.host old new token live).1 ∧
      (namer.label LiveScene.host old new token live).2.2 =
        (namer.forgetting.label LiveScene.host old new token live).2.2 := by
  have hreads : LiveScene.host.reads live = live.scene.reads := rfl
  unfold label propose
  rw [hreads]
  cases live.scene.reads.nodeName old with
  | error cause => exact ⟨rfl, rfl⟩
  | ok oldName =>
    cases live.scene.reads.nodeType old with
    | error cause => exact ⟨rfl, rfl⟩
    | ok oldType =>
      have hclaim := claim_forgetting namer (avoided namer.policy live.scene.reads new) ?_
        (deriveName oldName oldType token) oldName
      · change (LiveScene.host.rename new (namer.claim _ _ _).1 live).1 =
            (LiveScene.host.rename new (namer.forgetting.claim _ _ _).1 live).1 ∧
          (LiveScene.host.rename new (namer.claim _ _ _).1 live).2 =
            (LiveScene.host.rename new (namer.forgetting.claim _ _ _).1 live).2
        exact ⟨congrArg (fun name => (LiveScene.host.rename new name live).1) hclaim,
          congrArg (fun name => (LiveScene.host.rename new name live).2) hclaim⟩
      · intro hpolicy name hname
        rw [hpolicy]
        exact mem_takenNames_iff.mpr (h name hname)

end Namer

def Run.forgetting {σ : Type} (run : Run σ) : Run σ := { run with namer := run.namer.forgetting }

namespace Migrator

section

variable {σ : Type}

/-- Converts nodes one after the other, each under a new namer. -/
def convertEach (migrator : Migrator σ) (policy : NamingPolicy) :
    List NodeId → StateM σ (List NodeConversion)
  | [] => pure []
  | node :: rest => fun state =>
    let (conversion, run) := migrator.convert node ⟨{ policy }, state⟩
    let (others, state) := convertEach migrator policy rest run.state
    (conversion :: others, state)

/-- Goes through types and converts the nodes that a type has by then one by one. -/
def convertEachType (migrator : Migrator σ) (policy : NamingPolicy) :
    List String → StateM σ (List NodeConversion)
  | [] => pure []
  | type :: rest => fun state =>
    let nodes := (migrator.host.reads state).nodesOfType type
    let (first, state) := migrator.convertEach policy nodes state
    let (others, state) := convertEachType migrator policy rest state
    (first ++ others, state)

end

variable {migrator : Migrator LiveScene} (hhost : migrator.host = LiveScene.host)
  {rule : Rule LiveScene} (old : NodeId) {run : Run LiveScene}
include hhost

theorem fillReplacement_forgetting {new : NodeId}
    (hheld : ∀ name ∈ run.namer.issued, ∃ id, id ≠ new ∧ run.state.scene.name? id = some name)
    (token : String) :
    Prod.map id Run.state (migrator.fillReplacement rule token old new run) =
      Prod.map id Run.state (migrator.fillReplacement rule token old new run.forgetting) := by
  obtain ⟨hgiven, hstate⟩ := Namer.label_forgetting old hheld token
  unfold fillReplacement
  rw [hhost]
  simp only [Run.forgetting, hgiven, hstate]
  rfl

theorem replaceNode_forgetting (hheld : run.namer.Held run.state.scene) (target : String)
    (hunused : run.state.NextUnused
      (migrator.replaceNode rule target old run).1.replacement?.toList.length) :
    Prod.map id Run.state (migrator.replaceNode rule target old run) =
      Prod.map id Run.state (migrator.replaceNode rule target old run.forgetting) := by
  have hcreate : migrator.host.create target rule.secondary run.state =
      LiveScene.create target rule.secondary run.state := by rw [hhost]; rfl
  unfold replaceNode at hunused ⊢
  simp only [Run.forgetting, hcreate, LiveScene.create_eq] at hunused ⊢
  cases hschema : run.state.scene.schemas.contains target with
  | false => rfl
  | true =>
    simp only [hschema, if_true] at hunused ⊢
    rw [(old_fillReplacement rule _ old _ _).2] at hunused
    refine fillReplacement_forgetting hhost old ?_ _
    intro name hname
    obtain ⟨id, hid⟩ := hheld name hname
    have hne : id ≠ run.state.supply.next := fun heq =>
      hunused.next_not_mem (heq ▸ Scene.mem_keys_of_name? hid)
    exact ⟨id, hne, ((Scene.Adds.of_addNode _ _ _ _ _).name?_of_ne hne).trans hid⟩

theorem applyRule_forgetting (hrule : rule.Stepless) (hheld : run.namer.Held run.state.scene)
    (hunused : run.state.NextUnused
      (migrator.applyRule rule old run).1.replacement?.toList.length) :
    Prod.map id Run.state (migrator.applyRule rule old run) =
      Prod.map id Run.state (migrator.applyRule rule old run.forgetting) := by
  rw [applyRule_eq migrator hrule.before, applyRule_eq migrator hrule.before] at *
  cases htarget : rule.target with
  | none => rfl
  | some target =>
    rw [htarget] at hunused
    exact replaceNode_forgetting hhost old hheld target hunused

/-- Converting a node alone does what converting it in a batch does, and its texture work before. -/
theorem convert_forgetting (hsheet : Sheet.Stepless migrator.sheet) {found : SceneNode}
    (hfound : run.state.scene.nodes.find? old = some found)
    (hrule : migrator.sheet.find? found.type = some rule) (hheld : run.namer.Held run.state.scene)
    (hunused : run.state.NextUnused
      (migrator.convertNode false old run).1.replacement?.toList.length) :
    Prod.map id Run.state (migrator.convert old run.forgetting) =
      let batch := migrator.convertNode false old run
      ({ batch.1 with
          hookFailures := migrator.textureFailures rule run.state.scene.reads old ++
            batch.1.hookFailures },
        batch.2.state) := by
  have htype := nodeType_eq hhost hfound
  have htype' : (migrator.host.reads run.forgetting.state).nodeType old = .ok found.type := htype
  have hreads : migrator.host.reads run.forgetting.state = run.state.scene.reads := by
    rw [hhost]
    rfl
  rw [convertNode_of_rule migrator htype hrule] at hunused ⊢
  unfold convert
  rw [convertNode_of_rule migrator htype' hrule, hreads]
  have happly := applyRule_forgetting hhost old (hsheet.of_find? hrule) hheld hunused
  have hconversion : (migrator.applyRule rule old run).1 =
      (migrator.applyRule rule old run.forgetting).1 := by
    simpa using congrArg Prod.fst happly
  refine Prod.ext ?_ (congrArg Prod.snd happly).symm
  simp [hconversion]

end Migrator

namespace Migrator.Effect

variable {rule : Rule LiveScene} {old : NodeId} {run run' : Run LiveScene} {outcome : Outcome}
  (h : Effect rule old run outcome run')
include h

/-- The name of a replacement is held by it, and the names of other nodes stay. -/
theorem held (hheld : run.namer.Held run.state.scene)
    (hunused : run.state.NextUnused (outcome.made rule).length) :
    run'.namer.Held run'.state.scene := by
  cases h with
  | passthrough => exact hheld
  | failed => exact hheld
  | inPlace _ _ hchanges =>
    intro name hname
    obtain ⟨id, hid⟩ := hheld name hname
    exact ⟨id, (hchanges.name?_eq id).trans hid⟩
  | converted htarget _ hadds hissues =>
    intro name hname
    rcases hissues.issued name hname with rfl | hname
    · exact ⟨_, hadds.name?_self⟩
    · obtain ⟨id, hid⟩ := hheld name hname
      rw [Outcome.made_converted htarget] at hunused
      have hne : id ≠ run.state.supply.next := fun heq =>
        hunused.next_not_mem (heq ▸ Scene.mem_keys_of_name? hid)
      exact ⟨id, (hadds.name?_of_ne hne).trans hid⟩

theorem policy_eq : run'.namer.policy = run.namer.policy := by
  cases h with
  | passthrough | failed | inPlace => rfl
  | converted _ _ _ hissues => exact hissues.policy

end Migrator.Effect

/-- The texture work of the rule is at most that for the path stored in an attribute. -/
def Rule.TranscodesAttribute {σ : Type} (rule : Rule σ) : Prop :=
  rule.textureJob = none ∨
    ∃ transcoder attr, rule.textureJob = some (Texture.jobOfAttribute transcoder attr)

namespace Migrator

def Pending.listed (failures : NodeId → List HookFailure) (nodes : List NodeId) : Pending :=
  nodes.map fun node => (node, failures node)

namespace Pending

variable {failures : NodeId → List HookFailure} {node : NodeId} {rest : List NodeId}
  (h : node ∉ rest)
include h

theorem ne_of_mem_listed {entry : NodeId × List HookFailure} (he : entry ∈ listed failures rest) :
    entry.1 ≠ node := by
  obtain ⟨other, hother, rfl⟩ := List.mem_map.mp he
  exact fun heq => h (heq ▸ hother)

theorem except_listed : except (listed failures (node :: rest)) node = listed failures rest := by
  have hrest : except (listed failures rest) node = listed failures rest := by
    refine List.filter_eq_self.mpr fun entry he => ?_
    simpa using ne_of_mem_listed h he
  simpa [listed, except] using hrest

theorem of_listed : of (listed failures (node :: rest)) node = failures node := by
  have hrest : (listed failures rest).filter (fun entry => entry.1 == node) = [] := by
    refine List.filter_eq_nil_iff.mpr fun entry he => ?_
    simpa using ne_of_mem_listed h he
  unfold listed at hrest ⊢
  unfold of
  rw [List.map_cons, List.filter_cons_of_pos (by simp), hrest, List.flatMap_singleton]

end Pending

/-- The texture work of a node depends on that node alone. -/
theorem textureFailures_congr {migrator : Migrator LiveScene} {rule : Rule LiveScene}
    (hjob : rule.TranscodesAttribute) {scene scene' : Scene} {node : NodeId}
    (h : scene'.nodes.find? node = scene.nodes.find? node) :
    migrator.textureFailures rule scene'.reads node =
      migrator.textureFailures rule scene.reads node := by
  unfold textureFailures
  rcases hjob with hnone | ⟨transcoder, attr, hsome⟩
  · rw [hnone]
  · have hstatic : scene'.reads.getStatic node attr = scene.reads.getStatic node attr := by
      simp only [Scene.reads, Scene.slot, Scene.slot?, h]
    simp only [hsome, Texture.jobOfAttribute, hstatic]

/-- The nodes are of the type, and the failures those of their texture work. -/
def Awaiting (migrator : Migrator LiveScene) (rule : Rule LiveScene) (type : String)
    (failures : NodeId → List HookFailure) (scene : Scene) (nodes : List NodeId) : Prop :=
  ∀ node ∈ nodes, (∃ found, scene.nodes.find? node = some found ∧ found.type = type) ∧
    failures node = migrator.textureFailures rule scene.reads node

/-- Nothing is written to a node before its own conversion. -/
theorem Awaiting.of_extends {migrator : Migrator LiveScene} {rule : Rule LiveScene} {type : String}
    {failures : NodeId → List HookFailure} {before after : LiveScene} {node : NodeId}
    {rest : List NodeId} {outcome : Outcome} {made : List (NodeId × String)}
    (h : migrator.Awaiting rule type failures before.scene (node :: rest)) (hnode : node ∉ rest)
    (hjob : rule.TranscodesAttribute)
    (hextends : before.Extends (outcome.touched node) made after) :
    migrator.Awaiting rule type failures after.scene rest := by
  intro other hother
  obtain ⟨⟨found, hfound, htype⟩, hfailures⟩ := h other (List.mem_cons_of_mem _ hother)
  have hne : other ≠ node := fun heq => hnode (heq ▸ hother)
  have hsame := hextends.same other (Table.mem_keys_iff.mpr ⟨found, hfound⟩)
    fun ht => hne (Outcome.eq_of_mem_touched ht)
  exact ⟨⟨found, hsame.trans hfound, htype⟩,
    hfailures.trans (textureFailures_congr hjob hsame).symm⟩

variable {migrator : Migrator LiveScene} (hhost : migrator.host = LiveScene.host)
  (hsheet : Sheet.Stepless migrator.sheet)
include hhost hsheet

/-- Converting the nodes of a type one by one is converting them with their texture work done
before. -/
theorem convertEach_eq {type : String} {rule : Rule LiveScene}
    (hrule : migrator.sheet.find? type = some rule) (hjob : rule.TranscodesAttribute)
    {failures : NodeId → List HookFailure} {nodes : List NodeId} (hnodup : nodes.Nodup)
    {run : Run LiveScene}
    (hnodes : migrator.Awaiting rule type failures run.state.scene nodes)
    (hheld : run.namer.Held run.state.scene)
    (hunused : run.state.NextUnused (replacementsOf
      (migrator.convertNodes (.listed failures nodes) nodes run).1).length) :
    migrator.convertEach run.namer.policy nodes run.state =
        Prod.map id Run.state (migrator.convertNodes (.listed failures nodes) nodes run) ∧
      (migrator.convertNodes (.listed failures nodes) nodes run).2.namer.policy =
        run.namer.policy ∧
      (migrator.convertNodes (.listed failures nodes) nodes run).2.namer.Held
        (migrator.convertNodes (.listed failures nodes) nodes run).2.state.scene := by
  induction nodes generalizing run with
  | nil => exact ⟨rfl, rfl, hheld⟩
  | cons node rest ih =>
    obtain ⟨hnode, hrest⟩ := List.nodup_cons.mp hnodup
    obtain ⟨⟨found, hfound, htype⟩, hfailures⟩ := hnodes node (List.mem_cons_self ..)
    rw [convertNodes_cons, Pending.except_listed hnode, Pending.of_listed hnode] at *
    dsimp only at hunused ⊢
    rw [replacementsOf_cons, List.length_append] at hunused
    have heffect := convertNode_effect hhost hsheet hfound (htype ▸ hrule) false
    have halone := convert_forgetting hhost node hsheet hfound (htype ▸ hrule) hheld
      (hunused.mono (Nat.le_add_right ..))
    -- the failures that the batch found before are those that the call finds itself
    rw [← hfailures] at halone
    generalize migrator.convertNode false node run = first at heffect halone hunused ⊢
    obtain ⟨conversion, later⟩ := first
    dsimp only at heffect halone hunused ⊢
    change run.state.NextUnused (conversion.replacement?.toList.length + _) at hunused
    rw [← conversion.length_made heffect.fits] at hunused
    have hnext := hunused.mono (Nat.le_add_right ..)
    have hextends := heffect.extension hnext
    have hlater := hnodes.of_extends hnode hjob hextends
    obtain ⟨heach, hpolicy, hthen⟩ := ih hrest hlater (heffect.held hheld hnext)
      (hextends.nextUnused hunused)
    rw [heffect.policy_eq] at heach hpolicy
    refine ⟨?_, hpolicy, hthen⟩
    have hcons : migrator.convertEach run.namer.policy (node :: rest) run.state =
        let alone := Prod.map id Run.state (migrator.convert node run.forgetting)
        let others := migrator.convertEach run.namer.policy rest alone.2
        (alone.1 :: others.1, others.2) := rfl
    rw [hcons, halone]
    dsimp only
    rw [heach]
    rfl

theorem convertEach_nodesOfType {type : String} {rule : Rule LiveScene}
    (hrule : migrator.sheet.find? type = some rule) (hjob : rule.TranscodesAttribute)
    {run : Run LiveScene} (hkeyed : run.state.scene.Keyed) (hheld : run.namer.Held run.state.scene)
    (hunused : run.state.NextUnused
      (replacementsOf (migrator.convertType type rule run).1).length) :
    migrator.convertEach run.namer.policy ((migrator.host.reads run.state).nodesOfType type)
        run.state = Prod.map id Run.state (migrator.convertType type rule run) ∧
      (migrator.convertType type rule run).2.namer.policy = run.namer.policy ∧
      (migrator.convertType type rule run).2.namer.Held
        (migrator.convertType type rule run).2.state.scene := by
  have hreads : migrator.host.reads run.state = run.state.scene.reads := by
    rw [hhost]
    rfl
  have hbatch : migrator.convertType type rule run = migrator.convertNodes
      (.listed (migrator.textureFailures rule run.state.scene.reads)
        (run.state.scene.nodesOfType type)) (run.state.scene.nodesOfType type) run := by
    unfold convertType
    rw [hreads]
    rfl
  rw [hbatch] at hunused ⊢
  rw [hreads]
  exact convertEach_eq hhost hsheet hrule hjob (hkeyed.nodup_nodesOfType type)
    (fun node hnode => ⟨hkeyed.mem_nodesOfType_iff.mp hnode, rfl⟩) hheld hunused

theorem convertEachType_eq (hjobs : ∀ entry ∈ migrator.sheet.entries, entry.2.TranscodesAttribute)
    (types : List (String × Rule LiveScene))
    (htypes : ∀ entry ∈ types, migrator.sheet.find? entry.1 = some entry.2)
    (run : Run LiveScene) (hkeyed : run.state.scene.Keyed)
    (hheld : run.namer.Held run.state.scene)
    (hunused : run.state.NextUnused (replacementsOf (migrator.convertTypes types run).1).length) :
    migrator.convertEachType run.namer.policy (types.map Prod.fst) run.state =
      Prod.map id Run.state (migrator.convertTypes types run) := by
  induction types generalizing run with
  | nil => rfl
  | cons entry rest ih =>
    have hrule := htypes entry (List.mem_cons_self ..)
    rw [convertTypes_cons] at hunused ⊢
    dsimp only at hunused ⊢
    rw [replacementsOf_append, List.length_append] at hunused
    have hfirst := hunused.mono (Nat.le_add_right ..)
    obtain ⟨_, hfits, hextends⟩ := turn_convertType hhost hsheet hrule hkeyed hfirst
    obtain ⟨heach, hpolicy, hlater⟩ := convertEach_nodesOfType hhost hsheet hrule
      (hjobs _ (Table.mem_entries_iff.mpr hrule)) hkeyed hheld hfirst
    have hrest := ih (fun other hother => htypes other (List.mem_cons_of_mem _ hother)) _
      (hextends.keyed hkeyed) hlater (hextends.nextUnused (hfits.length_made ▸ hunused))
    rw [hpolicy] at hrest
    have hcons :
        migrator.convertEachType run.namer.policy ((entry :: rest).map Prod.fst) run.state =
        let nodes := (migrator.host.reads run.state).nodesOfType entry.1
        let first := migrator.convertEach run.namer.policy nodes run.state
        let others := migrator.convertEachType run.namer.policy (rest.map Prod.fst) first.2
        (first.1 ++ others.1, others.2) := rfl
    rw [hcons]
    simp only [heach, Prod.map_fst, Prod.map_snd, hrest, id_eq, Prod.map_apply]

end Migrator

/-- A batch does what converting the nodes one by one does, each by a call of its own: the same
conversions with the same failures, and the same scene. -/
theorem convertEachType_eq_autoConvert {sheet : Sheet LiveScene} {workshop : Texture.Workshop}
    {policy : NamingPolicy} {live : LiveScene} {after : Run LiveScene} {report : ConversionReport}
    (hsheet : Sheet.Stepless sheet)
    (hjobs : ∀ entry ∈ sheet.entries, entry.2.TranscodesAttribute) (hkeyed : live.scene.Keyed)
    (hrun : (Migrator.inMemory sheet workshop).autoConvert ⟨{ policy }, live⟩ = (report, after))
    (hunused : live.NextUnused report.converted) :
    (Migrator.inMemory sheet workshop).convertEachType policy sheet.keys live =
      (report.conversions, after.state) := by
  have hconversions : (((Migrator.inMemory sheet workshop).convertTypes sheet.entries
      ⟨{ policy }, live⟩).1) = report.conversions :=
    congrArg (fun result => result.1.conversions) hrun
  have hafter : ((Migrator.inMemory sheet workshop).convertTypes sheet.entries
      ⟨{ policy }, live⟩).2 = after := congrArg Prod.snd hrun
  rw [← length_replacementsOf, ← hconversions] at hunused
  have hhost : (Migrator.inMemory sheet workshop).host = LiveScene.host := rfl
  have hheld : Namer.Held { policy } live.scene := fun _ hm => absurd hm List.not_mem_nil
  have heach := Migrator.convertEachType_eq hhost hsheet hjobs sheet.entries
    (fun entry he => Table.mem_entries_iff.mp he) ⟨{ policy }, live⟩ hkeyed hheld hunused
  rw [← hconversions, ← hafter]
  exact heach

/-- Two files of one name, one with a texture that cannot be read as a path. -/
def twoFiles : LiveScene where
  scene :=
    { schemas := .ofPairs [("sprite", ⟨"sprite", .ofPairs [("map", .string "")], {}⟩)]
      nodes := .ofPairs
        [(.ofNat 1, ⟨.ofNat 1, "file", none, "file1", .ofPairs [("path", ⟨.string "a.png", none⟩)],
            .empty⟩),
          (.ofNat 2, ⟨.ofNat 2, "file", none, "file1", .ofPairs [("path", ⟨.array [], none⟩)],
            .empty⟩)]
      roots := [] }
  supply := ⟨fun n => .ofNat (n + 3), 0⟩

def filesToSprites : Sheet LiveScene :=
  .ofPairs [("file", { (Rule.replacing "sprite").rename "path" "map" with
    textureJob := some (Texture.jobOfAttribute { program := "transcode" } "path") })]

def spriteRun : ConversionReport × Run LiveScene :=
  (Migrator.inMemory filesToSprites ⟨{}, {}, fun _ _ => .ok (.code 1)⟩).autoConvert ⟨{}, twoFiles⟩

/-- Called for one file and then for the other, the conversion finds the first sprite's name
taken. -/
theorem twoFiles_one_by_one :
    (Migrator.inMemory filesToSprites ⟨{}, {}, fun _ _ => .ok (.code 1)⟩).convertEachType .unique
        ["file"] twoFiles = (spriteRun.1.conversions, spriteRun.2.state) ∧
      spriteRun.2.state.scene.nodes.values.map SceneNode.name =
        ["file1", "file1", "sprite1", "sprite1_1"] ∧
      spriteRun.1.conversions.map (fun conversion => conversion.hookFailures.length) = [0, 1] := by
  have hrun : (Migrator.inMemory filesToSprites ⟨{}, {}, fun _ _ => .ok (.code 1)⟩).autoConvert
      ⟨{}, twoFiles⟩ = (spriteRun.1, spriteRun.2) := (Prod.eta spriteRun).symm
  refine ⟨convertEachType_eq_autoConvert (by decide) ?_ (by decide) hrun (by decide +kernel),
    by decide +kernel, by decide +kernel⟩
  intro entry he
  rw [List.mem_singleton.mp he]
  exact Or.inr ⟨_, _, rfl⟩

end ShaderMigration
