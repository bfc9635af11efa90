import ShaderMigration.Proofs.BuildSteps
import ShaderMigration.Proofs.DescribedNodes

namespace ShaderMigration

namespace Build

/-- The nodes made are finished: each is tagged, and its reference is resolved or waits.  Besides,
older nodes got `tags`, and their `references` were seen to. -/
structure Deeds.Finish (deeds : Deeds) (built : List (NodeId × NodeSpec))
    (tags references : List (NodeId × String)) : Prop where
  made : deeds.made = built.map fun entry => (entry.1, entry.2.type)
  tagged : deeds.tagged.Perm (tags ++ tagsOf built)
  referred : (deeds.resolved ++ deeds.waiting).Perm (references ++ referencesOf built)
  unresolved : deeds.unresolved = []

/-- A stretch in which the nodes of the descriptions were made and finished. -/
def Finishes (options : BuildOptions) (touched : List NodeId) (specs : List NodeSpec)
    (tags references : List (NodeId × String)) (before after : Building LiveScene) : Prop :=
  ∃ deeds built, Stretch options touched deeds before after ∧
    deeds.Finish built tags references ∧ built.map Prod.snd = specs

variable {options : BuildOptions} {touched : List NodeId} {specs specs' : List NodeSpec}
  {tags tags' references : List (NodeId × String)} {before mid after : Building LiveScene}

theorem Deeds.Finish.map_made {deeds : Deeds} {built : List (NodeId × NodeSpec)}
    (h : deeds.Finish built tags references) : deeds.made.map Prod.fst = built.map Prod.fst := by
  rw [h.made, List.map_map]
  rfl

theorem Deeds.Finish.append {deeds deeds' : Deeds} {built built' : List (NodeId × NodeSpec)}
    (h : deeds.Finish built tags []) (h' : deeds'.Finish built' tags' references) :
    (deeds ++ deeds').Finish (built ++ built') (tags ++ tags') references := by
  rw [Deeds.append_eq]
  refine ⟨?_, ?_, ?_, ?_⟩
  · rw [h.made, h'.made, List.map_append]
  · refine (h.tagged.append h'.tagged).trans ?_
    simp only [labels_append, List.append_assoc]
    exact (List.perm_append_comm_assoc _ _ _).append_left tags
  · have hshuffle : (deeds.resolved ++ deeds'.resolved ++ (deeds.waiting ++ deeds'.waiting)).Perm
        (deeds.resolved ++ deeds.waiting ++ (deeds'.resolved ++ deeds'.waiting)) := by
      simp only [List.append_assoc]
      exact (List.perm_append_comm_assoc _ _ _).append_left deeds.resolved
    refine (hshuffle.trans (h.referred.append h'.referred)).trans ?_
    simp only [labels_append, List.nil_append]
    exact List.perm_append_comm_assoc _ _ _
  · rw [h.unresolved, h'.unresolved, List.append_nil]

namespace Finishes

theorem of_stretch (h : Stretch options touched {} before after) :
    Finishes options touched [] [] [] before after :=
  ⟨{}, [], h, ⟨rfl, .refl _, .refl _, rfl⟩, rfl⟩

theorem mono {touched' : List NodeId}
    (h : Finishes options touched specs tags references before after)
    (hsub : ∀ id ∈ before.state.scene.nodes.keys, id ∈ touched → id ∈ touched') :
    Finishes options touched' specs tags references before after := by
  obtain ⟨deeds, built, hstretch, hfinish, hspecs⟩ := h
  exact ⟨deeds, built, hstretch.mono hsub, hfinish, hspecs⟩

/-- Only older nodes are written to later on, so the references of the new ones stay resolved. -/
theorem trans (h : Finishes options touched specs tags [] before mid)
    (h' : Finishes options touched specs' tags' references mid after)
    (hold : ∀ id ∈ touched, id ∈ before.state.scene.nodes.keys) :
    Finishes options touched (specs ++ specs') (tags ++ tags') references before after := by
  obtain ⟨deeds, built, hstretch, hfinish, hspecs⟩ := h
  obtain ⟨deeds', built', hstretch', hfinish', hspecs'⟩ := h'
  have hresolved : ∀ entry ∈ deeds.resolved, entry.1 ∉ touched := by
    intro entry he htouched
    have hreference := hfinish.referred.subset (List.mem_append_left _ he)
    rw [List.nil_append] at hreference
    refine hstretch.state.not_mem_made (hold _ htouched) ?_
    rw [hfinish.map_made]
    exact (map_fst_labels_sublist _ _).subset (List.mem_map_of_mem hreference)
  refine ⟨deeds ++ deeds', built ++ built', ?_, hfinish.append hfinish', ?_⟩
  · refine (hstretch.trans hstretch' hresolved).mono fun id _ hid => ?_
    simpa using hid
  · rw [List.map_append, hspecs, hspecs']

theorem declares (h : Finishes options touched specs tags references before after) {node : NodeId}
    {type : String} (hnode : before.state.scene.Declares node type) :
    after.state.scene.Declares node type := by
  obtain ⟨_, _, hstretch, _⟩ := h
  exact hstretch.state.declares hnode

end Finishes

/-- A building with as many ids left as there are nodes to make. -/
structure Ready (schemas : Table String Schema) (building : Building LiveScene) (count : Nat) :
    Prop where
  schemas : building.state.scene.schemas = schemas
  tags : TagsPresent building
  unused : building.state.NextUnused count

variable {schemas : Table String Schema}

theorem Ready.mono {count count' : Nat} (h : Ready schemas before count) (hle : count' ≤ count) :
    Ready schemas before count' := ⟨h.schemas, h.tags, h.unused.mono hle⟩

theorem Stretch.ready {deeds : Deeds} (h : Stretch options touched deeds before after) {count : Nat}
    (hbefore : Ready schemas before (deeds.made.length + count)) : Ready schemas after count :=
  ⟨h.state.schemas.trans hbefore.schemas, h.tagsPresent hbefore.tags,
    h.state.nextUnused hbefore.unused⟩

theorem Finishes.ready (h : Finishes options touched specs tags references before after)
    {count : Nat} (hbefore : Ready schemas before (specs.length + count)) :
    Ready schemas after count := by
  obtain ⟨deeds, built, hstretch, hfinish, rfl⟩ := h
  refine hstretch.ready ?_
  simpa only [hfinish.made, List.length_map] using hbefore

/-- A node is finished when what was done for it since it was created is what its description
says. -/
theorem Finishes.of_create {node : NodeId} {spec : NodeSpec}
    (hcreate : Stretch options [] { made := [(node, spec.type)] } before mid)
    (h : Finishes options [node] specs (spec.tag.toList.map fun tag => (node, tag))
      (spec.feed.reference?.toList.map fun tag => (node, tag)) mid after) :
    Finishes options [] (spec :: specs) [] [] before after := by
  obtain ⟨deeds, built, hstretch, hfinish, rfl⟩ := h
  have hnew : node ∉ before.state.scene.nodes.keys := fun hm =>
    hcreate.state.not_mem_made hm (by simp)
  refine ⟨_, (node, spec) :: built, (hcreate.trans hstretch (by simp)).mono ?_, ?_, rfl⟩
  · intro id hid htouched
    rw [List.nil_append, List.mem_singleton] at htouched
    exact absurd hid (htouched ▸ hnew)
  · rw [Deeds.append_eq]
    exact ⟨by simp [hfinish.made], hfinish.tagged, hfinish.referred, hfinish.unresolved⟩

/-- From where it is ready, a step makes and finishes the nodes of the descriptions and writes to
no older nodes but those in `touched`; it gives these the tags and sees to the references. -/
def Builds (options : BuildOptions) (schemas : Table String Schema)
    (touched : List (NodeId × String)) (specs : List NodeSpec)
    (tags references : List (NodeId × String)) {α : Type} (step : BuildStep LiveScene α) : Prop :=
  ∀ ⦃before result after⦄, step before = (.ok result, after) →
    (∀ entry ∈ touched, before.state.scene.Declares entry.1 entry.2) →
      Ready schemas before specs.length →
        Finishes options (touched.map Prod.fst) specs tags references before after

namespace Builds

variable {touched : List (NodeId × String)} {α β : Type} {step : BuildStep LiveScene α}
  {node : NodeId} {type : String}

theorem pure (result : α) :
    Builds options schemas touched [] [] [] (pure result : BuildStep LiveScene α) := by
  intro before _ after h _ _
  obtain ⟨-, rfl⟩ := pure_eq_ok_iff.mp h
  exact .of_stretch ((Stretch.refl before).mono (by simp))

theorem bind {next : α → BuildStep LiveScene β}
    (hstep : Builds options schemas touched specs tags [] step)
    (hnext : ∀ result, Builds options schemas touched specs' tags' references (next result)) :
    Builds options schemas touched (specs ++ specs') (tags ++ tags') references
      (step >>= next) := by
  intro before _ after h hold hready
  rw [List.length_append] at hready
  obtain ⟨first, mid, hfirst, h⟩ := bind_eq_ok_iff.mp h
  have hfinish := hstep hfirst hold (hready.mono (Nat.le_add_right ..))
  refine hfinish.trans (hnext first h (fun entry he => ?_) (hfinish.ready hready)) ?_
  · exact hfinish.declares (hold entry he)
  · intro id hid
    obtain ⟨entry, he, rfl⟩ := List.mem_map.mp hid
    exact (hold entry he).mem_keys

theorem returning (h : Builds options schemas touched specs tags references step) (given : β) :
    Builds options schemas touched specs tags references (do
      let _ ← step
      return given) := by
  intro before _ after hrun hold hready
  obtain ⟨first, mid, hfirst, hrun⟩ := bind_eq_ok_iff.mp hrun
  obtain ⟨-, rfl⟩ := pure_eq_ok_iff.mp hrun
  exact h hfirst hold hready

theorem within (h : Builds options schemas [] specs tags references step) :
    Builds options schemas touched specs tags references step := by
  intro before _ after hstep _ hready
  exact (h hstep (by simp) hready).mono (by simp)

theorem of_attempt {key : String} {f : Scene → Except HostError Scene}
    (hf : ∀ scene scene', f scene = .ok scene' → scene.ChangesOnly node scene') :
    Builds options schemas [(node, type)] [] [] [] (attempt node key (LiveScene.edit () f)) :=
  fun _ _ _ h _ _ => .of_stretch (stretch_attempt hf h)

theorem of_set (node : NodeId) (key attr : String) (value : Value) :
    Builds options schemas [(node, type)] [] [] []
      (attempt node key (LiveScene.host.set node attr value)) :=
  .of_attempt fun _ _ hok => .of_rewrites (Scene.rewrites_of_set hok)

theorem of_connect (source node : NodeId) (key attr : String) :
    Builds options schemas [(node, type)] [] [] []
      (attempt node key (LiveScene.host.connect ⟨source, none⟩ node attr)) :=
  .of_attempt fun _ _ hok => .of_rewrites (Scene.rewrites_of_connect hok)

theorem connected {step : BuildStep LiveScene NodeId}
    (h : Builds options schemas [] specs [] [] step) (node : NodeId) (key attr : String) :
    Builds options schemas [(node, type)] specs [] [] (step >>= fun source =>
      attempt node key (LiveScene.host.connect ⟨source, none⟩ node attr)) := by
  have hbind : Builds options schemas [(node, type)] (specs ++ []) [] [] (step >>= fun source =>
      attempt node key (LiveScene.host.connect ⟨source, none⟩ node attr)) :=
    h.within.bind fun source => of_connect source node key attr
  rwa [List.append_nil] at hbind

theorem of_fail (node : NodeId) (key : String) (cause : HostError) :
    Builds options schemas [(node, type)] [] [] [] (modify (fail node key cause)) := by
  intro before _ after h _ _
  rw [modify_eq_ok_iff] at h
  subst h
  exact .of_stretch ((stretch_fail node key cause before).mono (by simp))

theorem of_root (node : NodeId) :
    Builds options schemas [] [] [] [] (modify fun building : Building LiveScene =>
      { building with
        output := { building.output with roots := building.output.roots ++ [node] } }) := by
  intro before _ after h _ _
  rw [modify_eq_ok_iff] at h
  subst h
  exact .of_stretch (.still rfl rfl rfl (List.Subset.refl _) rfl rfl)

theorem of_tag (node : NodeId) (tag : String) :
    Builds options schemas [(node, type)] [] [(node, tag)] []
      (tagNode LiveScene.host options node tag) := by
  intro before _ after h hold _
  exact ⟨_, [], stretch_tagNode (hold (node, type) (by simp)).mem_keys h,
    ⟨rfl, .refl _, .refl _, rfl⟩, rfl⟩

/-- A reference is resolved at once or waits. -/
theorem of_reference (hoptions : options.Deferring) (node : NodeId) (tag : String) :
    Builds options schemas [(node, type)] [] [] [(node, tag)]
      (feedByTag LiveScene.host options node tag (wait options node tag)) := by
  intro before _ after h hold hready
  cases htag : before.output.tags.find? tag with
  | some source =>
    exact ⟨_, [], stretch_feedByTag hready.tags (hold (node, type) (by simp)).mem_keys htag h,
      ⟨rfl, .refl _, .refl _, rfl⟩, rfl⟩
  | none =>
    rw [feedByTag_of_none hoptions.scope htag] at h
    exact ⟨_, [], stretch_wait hoptions.deferred h, ⟨rfl, .refl _, .refl _, rfl⟩, rfl⟩

theorem of_inputEntries {isUnused : Bool}
    {next : Except HostError (List InputEntry) → BuildStep LiveScene α}
    (h : ∀ schema, schemas.find? type = some schema → Builds options schemas [(node, type)] specs
      tags references (next (.ok (if isUnused then [] else schema.inputEntries)))) :
    Builds options schemas [(node, type)] specs tags references
      (inputEntries LiveScene.host node isUnused >>= next) := by
  intro before result after hrun hold hready
  obtain ⟨schema, hschema, hentries⟩ := (hold (node, type) (by simp)).inputEntries_eq
  rw [hready.schemas] at hschema
  obtain ⟨known, mid, hknown, hrun⟩ := bind_eq_ok_iff.mp hrun
  obtain ⟨hresult, rfl⟩ := Prod.mk.inj hknown
  have hsame : known = .ok (if isUnused then [] else schema.inputEntries) := by
    rw [← Except.ok.inj hresult]
    split
    next => rfl
    next => exact hentries
  exact h schema hschema (hsame ▸ hrun) hold hready

theorem of_create {spec : NodeSpec} {next : NodeId → BuildStep LiveScene α}
    (h : ∀ node, Builds options schemas [(node, spec.type)] specs
      (spec.tag.toList.map fun tag => (node, tag))
        (spec.feed.reference?.toList.map fun tag => (node, tag)) (next node)) :
    Builds options schemas [] (spec :: specs) [] [] (create LiveScene.host spec.type >>= next) := by
  intro before result after hrun _ hready
  rw [List.length_cons, Nat.add_comm] at hready
  obtain ⟨node, mid, hcreate, hrun⟩ := bind_eq_ok_iff.mp hrun
  obtain ⟨hmade, schema, hschema⟩ : Stretch options [] { made := [(node, spec.type)] } before mid ∧
      ∃ schema, before.state.scene.schemas.find? spec.type = some schema :=
    stretch_create (hready.unused.mono (Nat.le_add_right ..)) hcreate
  have hnode := hmade.state.declares_made (List.mem_singleton.mpr rfl) hschema
  refine .of_create hmade (h node hrun ?_ (hmade.ready hready))
  intro entry he
  rwa [List.mem_singleton.mp he]

end Builds

theorem describedEntries_hasInput {type : String} {schema : Schema}
    (hschema : schemas.find? type = some schema) (inputs : List (String × SpecValue)) :
    NodeSpec.describedEntries schemas (NodeSpec.hasInput schemas type) inputs =
      NodeSpec.describedEntries schemas (fun id =>
        (if inputs.isEmpty then [] else schema.inputEntries).any fun entry => entry.id == id)
          inputs := by
  cases inputs with
  | nil => rfl
  | cons entry rest =>
    congr 1
    funext id
    simp [NodeSpec.hasInput, hschema]

mutual

theorem builds_build (hoptions : options.Deferring) : ∀ spec : NodeSpec,
    Builds options schemas [] (spec.described schemas) [] [] (build LiveScene.host options spec)
  | ⟨type, attrs, inputs, tag, feed⟩ => by
    unfold build
    refine .of_create fun node => ?_
    refine (builds_assignAttrs hoptions node attrs).bind fun _ => ?_
    refine .of_inputEntries fun schema hschema => ?_
    -- inputs are looked for among those of the schema, or not at all if nothing is assigned
    rw [describedEntries_hasInput hschema]
    refine (builds_assignInputs hoptions node _ inputs).bind fun _ => ?_
    have hfeed : Builds options schemas [(node, type)] (NodeSpec.describedFeed schemas feed) []
        (feed.reference?.toList.map fun tag => (node, tag)) (do
          feedNode LiveScene.host options node feed
          return node) := (builds_feedNode hoptions node feed).returning node
    cases tag with
    | none => exact hfeed
    | some tag => exact (Builds.of_tag node tag).bind fun _ => hfeed

theorem builds_assignAttrs (hoptions : options.Deferring) (node : NodeId) {type : String} :
    ∀ entries : List (String × SpecValue), Builds options schemas [(node, type)]
      (NodeSpec.describedEntries schemas (fun _ => true) entries) [] []
        (assignAttrs LiveScene.host options node entries)
  | [] => .pure ()
  | (key, value) :: rest => (builds_assign hoptions node key key value).bind fun _ =>
    builds_assignAttrs hoptions node rest

theorem builds_assignInputs (hoptions : options.Deferring) (node : NodeId) {type : String}
    (known : List InputEntry) : ∀ entries : List (String × SpecValue),
      Builds options schemas [(node, type)] (NodeSpec.describedEntries schemas
          (fun id => known.any fun entry => entry.id == id) entries) [] []
        (assignInputs LiveScene.host options node (.ok known) entries)
  | [] => .pure ()
  | entry :: rest => (builds_assignInput hoptions node known entry).bind fun _ =>
    builds_assignInputs hoptions node known rest

theorem builds_assignInput (hoptions : options.Deferring) (node : NodeId) {type : String}
    (known : List InputEntry) : ∀ entry : String × SpecValue,
      Builds options schemas [(node, type)] (NodeSpec.describedEntry schemas
          (fun id => known.any fun entry => entry.id == id) entry) [] []
        (assignInput LiveScene.host options node (.ok known) entry)
  | (id, value) => by
    have hany : (known.any fun entry => entry.id == id) =
        (known.find? fun entry => entry.id == id).isSome := by
      rw [Bool.eq_iff_iff, List.any_eq_true, List.find?_isSome]
    unfold assignInput attributeOfInput NodeSpec.describedEntry
    rw [hany]
    dsimp only
    cases known.find? fun entry => entry.id == id with
    | some entry => exact builds_assign hoptions node id entry.attr value
    | none => exact .of_fail node id _

theorem builds_assign (hoptions : options.Deferring) (node : NodeId) {type : String}
    (key attr : String) : ∀ value : SpecValue,
      Builds options schemas [(node, type)] (NodeSpec.describedValue schemas value) [] []
        (assign LiveScene.host options node key attr value)
  | .literal value => .of_set node key attr value
  | .spec spec => (builds_build hoptions spec).connected node key attr

theorem builds_feedNode (hoptions : options.Deferring) (node : NodeId) {type : String} :
    ∀ feed : Feed, Builds options schemas [(node, type)] (NodeSpec.describedFeed schemas feed) []
      (feed.reference?.toList.map fun tag => (node, tag))
      (feedNode LiveScene.host options node feed)
  | .nothing => .pure ()
  | .node spec =>
    (builds_build hoptions spec).connected node options.primaryInput options.primaryInput
  | .tagged tag => .of_reference hoptions node tag

end

theorem builds_buildRoots (hoptions : options.Deferring) : ∀ specs : List NodeSpec,
    Builds options schemas [] (specs.flatMap fun spec => spec.described schemas) [] []
      (buildRoots LiveScene.host options specs)
  | [] => .pure ()
  | spec :: rest => (builds_build hoptions spec).bind fun node =>
    (Builds.of_root node).bind fun _ => builds_buildRoots hoptions rest

end Build

end ShaderMigration
