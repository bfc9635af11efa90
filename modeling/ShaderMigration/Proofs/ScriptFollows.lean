import ShaderMigration.Proofs.ScriptMoves

namespace ShaderMigration.Build

/-- The next ids are those of the next places, as many as are needed of them new. -/
structure Aligned (schemas : Table String Schema) (ids : Nat → NodeId) (place count : Nat)
    (building : Building LiveScene) : Prop where
  schemas : building.state.scene.schemas = schemas
  ids : ∀ i, building.state.supply.id (building.state.supply.drawn + i) = ids (place + i)
  unused : building.state.NextUnused count

section Follows

variable {options : BuildOptions} {ids : Nat → NodeId} {schemas : Table String Schema}
  {before after : Building LiveScene} {moves moves' : List Move} {place : Nat}

theorem Aligned.after_moves {count : Nat}
    (h : Aligned schemas ids place ((makes moves).length + count) before)
    (hrun : runMoves options ids moves before = (.ok (), after)) :
    Aligned schemas ids (place + (makes moves).length) count after ∧
      ∀ {node type}, before.state.scene.Declares node type → after.state.scene.Declares node type := by
  obtain ⟨touched, made, hextends, hmade⟩ :=
    extends_runMoves hrun (h.unused.mono (Nat.le_add_right ..))
  -- as many ids are drawn as nodes are made
  refine ⟨⟨hextends.schemas.trans h.schemas, fun i => ?_, ?_⟩, hextends.declares⟩
  · rw [hextends.supply, hmade, Nat.add_assoc, Nat.add_assoc]
    exact h.ids _
  · exact hextends.nextUnused (hmade ▸ h.unused)

variable {α β : Type}

/-- From where it is aligned, and with older nodes of the types given, the step does what the moves
do, and then yields the result. -/
def Follows (options : BuildOptions) (schemas : Table String Schema) (ids : Nat → NodeId)
    (older : List (Nat × String)) (place : Nat) (step : BuildStep LiveScene α) (moves : List Move)
    (result : α) : Prop :=
  ∀ before, Aligned schemas ids place (makes moves).length before →
    (∀ entry ∈ older, before.state.scene.Declares (ids entry.1) entry.2) →
      step before = (do
        runMoves options ids moves
        return result) before

theorem bind_congr_left {step step' : BuildStep LiveScene α} {next : α → BuildStep LiveScene β}
    (h : step before = step' before) : (step >>= next) before = (step' >>= next) before := by
  have hbind : ∀ step : BuildStep LiveScene α, (step >>= next) before =
      ExceptT.bindCont next (step before).1 (step before).2 := fun _ => rfl
  rw [hbind, hbind, h]

theorem bind_congr_right {step : BuildStep LiveScene α} {next next' : α → BuildStep LiveScene β}
    (h : ∀ result mid, step before = (.ok result, mid) → next result mid = next' result mid) :
    (step >>= next) before = (step >>= next') before := by
  have hbind : ∀ next : α → BuildStep LiveScene β, (step >>= next) before =
      ExceptT.bindCont next (step before).1 (step before).2 := fun _ => rfl
  rw [hbind, hbind]
  cases hstep : step before with
  | mk answer mid =>
    cases answer with
    | error cause => rfl
    | ok result => exact h result mid hstep

namespace Follows

variable {older : List (Nat × String)} {step : BuildStep LiveScene α}
  {next : α → BuildStep LiveScene β} {result : α} {result' : β}

theorem pure (result : α) : Follows options schemas ids older place
    (pure result : BuildStep LiveScene α) [] result := by
  intro before _ _
  simp [runMoves]

theorem bind {later : Nat} (h : Follows options schemas ids older place step moves result)
    (hlater : later = place + (makes moves).length)
    (h' : Follows options schemas ids older later (next result) moves' result') :
    Follows options schemas ids older place (step >>= next) (moves ++ moves') result' := by
  subst hlater
  intro before haligned hold
  rw [makes_append, List.length_append] at haligned
  have hfirst := h before ⟨haligned.schemas, haligned.ids,
    haligned.unused.mono (Nat.le_add_right ..)⟩ hold
  rw [bind_congr_left hfirst, runMoves_append]
  simp only [bind_assoc, pure_bind]
  refine bind_congr_right fun _ mid hrun => ?_
  obtain ⟨hmid, hdeclares⟩ := haligned.after_moves hrun
  exact h' mid hmid fun entry he => hdeclares (hold entry he)

theorem returning {γ : Type} (h : Follows options schemas ids older place step moves result)
    (given : γ) : Follows options schemas ids older place (do
      let _ ← step
      return given) moves given := by
  have hbind : Follows options schemas ids older place (step >>= fun _ => Pure.pure given)
      (moves ++ []) given := h.bind rfl (pure given)
  rwa [List.append_nil] at hbind

theorem within (h : Follows options schemas ids [] place step moves result) :
    Follows options schemas ids older place step moves result :=
  fun before haligned _ => h before haligned (by simp)

/-- A step that is one move. -/
theorem of_move {move : Move} {step : BuildStep LiveScene Unit}
    (h : step = move.run options ids) : Follows options schemas ids older place step [move] () := by
  intro before _ _
  rw [runMoves_singleton, h]
  exact congrFun (bind_pure_unit (x := move.run options ids)).symm before

theorem of_create {spec : NodeSpec} {next : NodeId → BuildStep LiveScene β}
    (h : Follows options schemas ids [(place, spec.type)] (place + 1) (next (ids place)) moves
      result') :
    Follows options schemas ids [] place (create LiveScene.host spec.type >>= next)
      (.create place spec :: moves) result' := by
  intro before haligned _
  have hmoves : (do
      runMoves options ids (.create place spec :: moves)
      return result' : BuildStep LiveScene β) = (do
        let _ ← create LiveScene.host spec.type
        runMoves options ids moves
        return result') := by
    simp only [runMoves, Move.run, bind_assoc, pure_bind]
  have hcount : (makes (.create place spec :: moves)).length = 1 + (makes moves).length := by
    rw [makes_cons, List.length_append]
    rfl
  rw [hmoves]
  refine bind_congr_right fun node mid hcreate => ?_
  have hrun : runMoves options ids [.create place spec] before = (.ok (), mid) := by
    rw [runMoves_singleton]
    exact bind_eq_ok_iff.mpr ⟨node, mid, hcreate, rfl⟩
  rw [hcount] at haligned
  obtain ⟨hmid, _⟩ := haligned.after_moves hrun
  obtain ⟨hstretch, schema, hschema⟩ : Stretch options [] { made := [(node, spec.type)] } before mid ∧
      ∃ schema, before.state.scene.schemas.find? spec.type = some schema :=
    stretch_create (haligned.unused.mono (Nat.le_add_right ..)) hcreate
  have hnode : node = ids place := by
    have hids : [node] = [before.state.supply.id (before.state.supply.drawn + 0)] :=
      hstretch.state.ids
    rw [haligned.ids] at hids
    exact List.head_eq_of_cons_eq hids
  subst hnode
  refine h mid hmid fun entry he => ?_
  rw [List.mem_singleton.mp he]
  exact hstretch.state.declares_made (List.mem_singleton.mpr rfl) hschema

theorem of_inputEntries {node : Nat} {type : String} {isUnused : Bool}
    {next : Except HostError (List InputEntry) → BuildStep LiveScene β}
    (h : ∀ schema, schemas.find? type = some schema → Follows options schemas ids [(node, type)]
      place (next (.ok (if isUnused then [] else schema.inputEntries))) moves result') :
    Follows options schemas ids [(node, type)] place
      (inputEntries LiveScene.host (ids node) isUnused >>= next) moves result' := by
  intro before haligned hold
  obtain ⟨schema, hschema, hentries⟩ := (hold (node, type) (by simp)).inputEntries_eq
  rw [haligned.schemas] at hschema
  have hknown : (if isUnused then .ok [] else
      (LiveScene.host.reads before.state).inputEntries (ids node)) =
        .ok (if isUnused then [] else schema.inputEntries) := by
    cases isUnused with
    | true => rfl
    | false => exact hentries
  rw [← h schema hschema before haligned hold, ← hknown]
  rfl

end Follows

/-- The attribute that an input of a list writes to. -/
def attrOfKnown (known : List InputEntry) (id : String) : Option String :=
  (known.find? fun entry => entry.id == id).map InputEntry.attr

theorem scriptEntries_attrOfInput? {primary type : String} {schema : Schema}
    (hschema : schemas.find? type = some schema) (inputs : List (String × SpecValue))
    (place count : Nat) :
    NodeSpec.scriptEntries schemas primary (NodeSpec.attrOfInput? schemas type) place count inputs =
      NodeSpec.scriptEntries schemas primary
        (attrOfKnown (if inputs.isEmpty then [] else schema.inputEntries)) place count inputs := by
  cases inputs with
  | nil => rfl
  | cons entry rest =>
    congr 1
    funext id
    rw [NodeSpec.attrOfInput?, hschema]
    rfl

theorem feedByTag_eq_run {node : NodeId} (tag : String) :
    feedByTag LiveScene.host options node tag (wait options node tag) =
      (Request.refer tag).run options ids node := by
  funext building
  unfold feedByTag Request.run Request.order?
  dsimp only
  cases resolve? options (LiveScene.host.reads building.state) building.output tag node with
  | some source => rfl
  | none => rfl

mutual

theorem follows_build : ∀ (spec : NodeSpec) (place : Nat),
    Follows options schemas ids [] place (build LiveScene.host options spec)
      (spec.script schemas options.primaryInput place) (ids place)
  | ⟨type, attrs, inputs, tag, feed⟩, place => by
    let spec : NodeSpec := ⟨type, attrs, inputs, tag, feed⟩
    let count := spec.madeForInputs schemas place
    -- the places of the nested nodes follow one another: attributes, inputs, feed
    have hplace : place < count := by
      simp only [count, NodeSpec.madeForInputs]
      omega
    have hassigned : count = place + 1 + (makes (NodeSpec.scriptEntries schemas
        options.primaryInput some place (place + 1) attrs)).length := by
      rw [makes_scriptEntries _ _ some attrs (Nat.lt_succ_self place)]
      rfl
    have hready : spec.madeForFeed schemas place = count + (makes (NodeSpec.scriptEntries schemas
        options.primaryInput (NodeSpec.attrOfInput? schemas type) place count inputs)).length := by
      rw [makes_scriptEntries _ _ _ inputs hplace, ← funext (NodeSpec.hasInput_eq schemas type)]
      rfl
    unfold build NodeSpec.script
    refine Follows.of_create ((follows_assignAttrs attrs (Nat.lt_succ_self place)).bind
      hassigned ?_)
    refine .of_inputEntries fun schema hschema => ?_
    rw [scriptEntries_attrOfInput? hschema] at hready ⊢
    refine (follows_assignInputs _ inputs hplace).bind hready ?_
    have hfeed : Follows options schemas ids [(place, type)] (spec.madeForFeed schemas place) _ _ _ :=
      (follows_feedNode feed).returning (ids place)
    cases tag with
    | none => exact hfeed
    | some tag => exact (Follows.of_move rfl).bind rfl hfeed

theorem follows_assignAttrs : ∀ (entries : List (String × SpecValue)) {place count : Nat}
    {type : String}, place < count → Follows options schemas ids [(place, type)] count
      (assignAttrs LiveScene.host options (ids place) entries)
      (NodeSpec.scriptEntries schemas options.primaryInput some place count entries) ()
  | [], _, _, _, _ => .pure ()
  | (key, value) :: rest, _, _, _, hplace => by
    have hmakes := makes_scriptEntry options.primaryInput schemas some (key, value) hplace
    exact (follows_assign key key value).bind (by rw [← hmakes]; rfl)
      (follows_assignAttrs rest (by omega))

theorem follows_assignInputs (known : List InputEntry) :
    ∀ (entries : List (String × SpecValue)) {place count : Nat} {type : String},
      place < count → Follows options schemas ids [(place, type)] count
        (assignInputs LiveScene.host options (ids place) (.ok known) entries)
        (NodeSpec.scriptEntries schemas options.primaryInput (attrOfKnown known) place count
          entries) ()
  | [], _, _, _, _ => .pure ()
  | entry :: rest, _, _, _, hplace => by
    have hmakes := makes_scriptEntry options.primaryInput schemas (attrOfKnown known) entry hplace
    exact (follows_assignInput known entry).bind (by rw [hmakes])
      (follows_assignInputs known rest (by omega))

theorem follows_assignInput (known : List InputEntry) :
    ∀ (entry : String × SpecValue) {place count : Nat} {type : String},
      Follows options schemas ids [(place, type)] count
        (assignInput LiveScene.host options (ids place) (.ok known) entry)
        (NodeSpec.scriptEntry schemas options.primaryInput (attrOfKnown known) place count entry) ()
  | (id, value), _, _, _ => by
    unfold assignInput attributeOfInput NodeSpec.scriptEntry attrOfKnown
    dsimp only
    cases known.find? fun entry => entry.id == id with
    | some entry => exact follows_assign id entry.attr value
    | none =>
      cases value with
      | literal => exact .of_move rfl
      | spec => exact .of_move rfl

theorem follows_assign (key attr : String) : ∀ (value : SpecValue) {place count : Nat}
    {type : String}, Follows options schemas ids [(place, type)] count
      (assign LiveScene.host options (ids place) key attr value)
      (NodeSpec.scriptValue schemas options.primaryInput count value ++
        [.ask place (NodeSpec.requestOf (some attr) count key value)]) ()
  | .literal _, _, _, _ => .of_move rfl
  | .spec child, _, count, _ => (follows_build child count).within.bind rfl (.of_move rfl)

theorem follows_feedNode : ∀ (feed : Feed) {place count : Nat} {type : String},
    Follows options schemas ids [(place, type)] count
      (feedNode LiveScene.host options (ids place) feed)
      (NodeSpec.scriptFeed schemas options.primaryInput place count feed) ()
  | .nothing, _, _, _ => .pure ()
  | .node child, _, count, _ => (follows_build child count).within.bind rfl (.of_move rfl)
  | .tagged tag, _, _, _ => .of_move (feedByTag_eq_run tag)

end

theorem follows_buildRoots : ∀ (roots : List NodeSpec) (count : Nat),
    Follows options schemas ids [] count (buildRoots LiveScene.host options roots)
      (NodeSpec.scriptRoots schemas options.primaryInput count roots) ()
  | [], _ => .pure ()
  | spec :: rest, count => by
    have hmakes := makes_script options.primaryInput schemas spec count
    refine (follows_build spec count).bind (by rw [hmakes]) ?_
    exact Follows.bind (.of_move rfl) rfl (follows_buildRoots rest _)

end Follows

end ShaderMigration.Build
