import ShaderMigration.NodeSpec.Build
import ShaderMigration.Proofs.SceneFrame

namespace ShaderMigration

theorem Scene.ChangesOnly.of_setTag {scene scene' : Scene} {node : NodeId} {key text : String}
    (h : scene.setTag node key text = .ok scene') : scene.ChangesOnly node scene' := by
  unfold Scene.setTag at h
  split at h
  next => cases h
  next =>
    cases h
    exact .of_modify _ fun found => ⟨rfl, rfl, rfl, rfl⟩

/-- Why a connection is refused: to the node itself, or to an attribute that it does not have. -/
def Scene.Refuses (scene : Scene) (source node : NodeId) (attr : String) (cause : HostError) :
    Prop :=
  source = node ∧ cause = .rejected node attr .selfConnection ∨
    source ≠ node ∧ scene.slot? node attr = none ∧ cause = .noSuchAttribute node attr

theorem Scene.connect_eq_error_iff {scene : Scene} {source node : NodeId} {attr : String}
    {cause : HostError} (hsource : source ∈ scene.nodes.keys) (hnode : node ∈ scene.nodes.keys) :
    scene.connect ⟨source, none⟩ node attr = .error cause ↔
      scene.Refuses source node attr cause := by
  obtain ⟨found, hfound⟩ := Table.mem_keys_iff.mp hsource
  obtain ⟨other, hother⟩ := Table.mem_keys_iff.mp hnode
  unfold connect Refuses
  rw [Scene.node_eq_ok_iff.mpr hfound]
  by_cases hself : source = node
  · simp [hself, bind, Except.bind, throw, throwThe, MonadExceptOf.throw, eq_comm]
  · simp only [hself, if_false, bind, Except.bind, slotForWriting, hother, Scene.slot]
    cases scene.slot? node attr <;> simp [pure, Except.pure, eq_comm, hself]

namespace Build

/-- What a stretch of a build did: the nodes made with their types, the nodes tagged, and the
references that were resolved, are waiting, or led to nothing. -/
structure Deeds where
  made : List (NodeId × String) := []
  tagged : List (NodeId × String) := []
  resolved : List (NodeId × String) := []
  waiting : List (NodeId × String) := []
  unresolved : List (NodeId × String) := []

instance : Append Deeds where
  append first second :=
    ⟨first.made ++ second.made, first.tagged ++ second.tagged, first.resolved ++ second.resolved,
      first.waiting ++ second.waiting, first.unresolved ++ second.unresolved⟩

theorem Deeds.append_eq (first second : Deeds) : first ++ second =
    ⟨first.made ++ second.made, first.tagged ++ second.tagged, first.resolved ++ second.resolved,
      first.waiting ++ second.waiting, first.unresolved ++ second.unresolved⟩ := rfl

/-- The primary input of the node is fed by the node of the tag, or refuses it, which is on
record. -/
structure Fed (options : BuildOptions) (building : Building LiveScene) (node : NodeId)
    (tag : String) : Prop where
  present : node ∈ building.state.scene.nodes.keys
  answer : ∃ source, building.output.tags.find? tag = some source ∧
    (building.state.scene.reads.connections node options.primaryInput = .ok [⟨source, none⟩] ∨
      ∃ cause, building.state.scene.Refuses source node options.primaryInput cause ∧
        ⟨node, options.primaryInput, cause⟩ ∈ building.output.failures)

/-- A stretch of a build that wrote only to the nodes in `touched` and to those that it made. -/
structure Stretch (options : BuildOptions) (touched : List NodeId) (deeds : Deeds)
    (before after : Building LiveScene) : Prop where
  state : before.state.Extends touched deeds.made after.state
  created : after.output.created = before.output.created ++ deeds.made.map Prod.fst
  tags : ∀ tag, after.output.tags.find? tag = (before.output.tags.find? tag).or
    ((deeds.tagged.find? fun entry => entry.2 == tag).map Prod.fst)
  tagged : ∀ entry ∈ deeds.tagged, entry.1 ∈ after.state.scene.nodes.keys
  failures : before.output.failures ⊆ after.output.failures
  waiting : after.waiting = before.waiting ++ deeds.waiting
  unresolved : after.output.unresolved =
    before.output.unresolved ++ deeds.unresolved.map fun entry => ⟨entry.1, entry.2⟩
  resolved : ∀ entry ∈ deeds.resolved, Fed options after entry.1 entry.2

variable {options : BuildOptions} {touched touched' : List NodeId} {deeds deeds' : Deeds}
  {before mid after : Building LiveScene} {node source : NodeId} {tag : String}

namespace Stretch

/-- Nothing happened but that failures were recorded or roots listed. -/
theorem still (hstate : after.state = before.state)
    (hcreated : after.output.created = before.output.created)
    (htags : after.output.tags = before.output.tags)
    (hfailures : before.output.failures ⊆ after.output.failures)
    (hwaiting : after.waiting = before.waiting)
    (hunresolved : after.output.unresolved = before.output.unresolved) :
    Stretch options [] {} before after where
  state := hstate ▸ .refl _
  created := by simp [hcreated]
  tags := by simp [htags]
  tagged := by simp
  failures := hfailures
  waiting := by simp [hwaiting]
  unresolved := by simp [hunresolved]
  resolved := by simp

theorem refl (before : Building LiveScene) : Stretch options [] {} before before :=
  still rfl rfl rfl (List.Subset.refl _) rfl rfl

/-- What was written to does not count if it was made in the same stretch. -/
theorem mono (h : Stretch options touched deeds before after)
    (hsub : ∀ id ∈ before.state.scene.nodes.keys, id ∈ touched → id ∈ touched') :
    Stretch options touched' deeds before after :=
  { h with state := h.state.mono hsub }

theorem find?_tags (h : Stretch options touched deeds before after)
    (htag : before.output.tags.find? tag = some source) :
    after.output.tags.find? tag = some source := by
  rw [h.tags, htag, Option.some_or]

/-- A reference stays as it was resolved while nothing is written to its node. -/
theorem fed (h : Stretch options touched deeds before after) (hfed : Fed options before node tag)
    (hnode : node ∉ touched) : Fed options after node tag := by
  obtain ⟨source, htag, hanswer⟩ := hfed.answer
  have hsame := h.state.same node hfed.present hnode
  have hslot : after.state.scene.slot? node options.primaryInput =
      before.state.scene.slot? node options.primaryInput := by
    unfold Scene.slot?
    rw [hsame]
  refine ⟨h.state.mem_keys hfed.present, source, h.find?_tags htag, ?_⟩
  rcases hanswer with hlive | ⟨cause, hrefuses, hfailure⟩
  · refine Or.inl (Eq.trans ?_ hlive)
    simp only [Scene.reads, Scene.slot, hslot]
  · refine Or.inr ⟨cause, ?_, h.failures hfailure⟩
    unfold Scene.Refuses at hrefuses ⊢
    rwa [hslot]

theorem trans (h : Stretch options touched deeds before mid)
    (h' : Stretch options touched' deeds' mid after)
    (hresolved : ∀ entry ∈ deeds.resolved, entry.1 ∉ touched') :
    Stretch options (touched ++ touched') (deeds ++ deeds') before after := by
  rw [Deeds.append_eq]
  refine ⟨h.state.trans h'.state, ?_, ?_, ?_, ?_, ?_, ?_, ?_⟩
  · simp [h'.created, h.created]
  · intro tag
    rw [h'.tags, h.tags, List.find?_append, Option.map_or, Option.or_assoc]
  · intro entry he
    rcases List.mem_append.mp he with he | he
    · exact h'.state.mem_keys (h.tagged entry he)
    · exact h'.tagged entry he
  · exact fun failure hf => h'.failures (h.failures hf)
  · rw [h'.waiting, h.waiting, List.append_assoc]
  · rw [h'.unresolved, h.unresolved, List.map_append, List.append_assoc]
  · intro entry he
    rcases List.mem_append.mp he with he | he
    · exact h'.fed (h.resolved entry he) (hresolved entry he)
    · exact h'.resolved entry he

end Stretch

def TagsPresent (building : Building LiveScene) : Prop :=
  ∀ tag source, building.output.tags.find? tag = some source →
    source ∈ building.state.scene.nodes.keys

theorem Stretch.tagsPresent (h : Stretch options touched deeds before after)
    (hbefore : TagsPresent before) : TagsPresent after := by
  intro tag source htag
  rw [h.tags, Option.or_eq_some_iff] at htag
  rcases htag with htag | ⟨_, htag⟩
  · exact h.state.mem_keys (hbefore tag source htag)
  · obtain ⟨entry, he, rfl⟩ := Option.map_eq_some_iff.mp htag
    exact h.tagged entry (List.mem_of_find?_eq_some he)

section Monad

variable {σ α β : Type}

theorem bind_eq_ok_iff {step : BuildStep σ α} {next : α → BuildStep σ β}
    {before after : Building σ} {result : β} :
    (step >>= next) before = (.ok result, after) ↔
      ∃ first mid, step before = (.ok first, mid) ∧ next first mid = (.ok result, after) := by
  have hbind : (step >>= next) before =
      ExceptT.bindCont next (step before).1 (step before).2 := rfl
  rw [hbind]
  cases hstep : step before with
  | mk answer mid =>
    cases answer with
    | error cause =>
      constructor
      · intro h
        cases (Prod.mk.inj h).1
      · intro h
        obtain ⟨_, _, heq, _⟩ := h
        cases (Prod.mk.inj heq).1
    | ok first =>
      constructor
      · exact fun h => ⟨first, mid, rfl, h⟩
      · intro h
        obtain ⟨_, _, heq, h⟩ := h
        obtain ⟨hfirst, rfl⟩ := Prod.mk.inj heq
        rwa [← Except.ok.inj hfirst] at h

theorem pure_eq_ok_iff {result given : α} {before after : Building σ} :
    (pure given : BuildStep σ α) before = (.ok result, after) ↔
      given = result ∧ before = after := by
  change ((.ok given, before) : Except HostError α × Building σ) = _ ↔ _
  simp

theorem modify_eq_ok_iff {f : Building σ → Building σ} {before after : Building σ} {result : Unit} :
    (modify f : BuildStep σ Unit) before = (.ok result, after) ↔ f before = after := by
  change ((.ok (), f before) : Except HostError Unit × Building σ) = _ ↔ _
  simp

end Monad

theorem stretch_fail (node : NodeId) (key : String) (cause : HostError)
    (before : Building LiveScene) : Stretch options [] {} before (fail node key cause before) :=
  .still rfl rfl rfl (List.subset_append_left _ _) rfl rfl

theorem stretch_attempt {key : String} {f : Scene → Except HostError Scene}
    (hf : ∀ scene scene', f scene = .ok scene' → scene.ChangesOnly node scene')
    (h : attempt node key (LiveScene.edit () f) before = (.ok (), after)) :
    Stretch options [node] {} before after := by
  unfold attempt at h
  rcases LiveScene.edit_cases () f before.state with ⟨scene, hok, heq⟩ | ⟨cause, _, heq⟩
  · rw [heq] at h
    obtain ⟨-, rfl⟩ := Prod.mk.inj h
    exact ⟨.of_changesOnly (hf _ _ hok), by simp, by simp, by simp, List.Subset.refl _, by simp,
      by simp, by simp⟩
  · rw [heq] at h
    obtain ⟨-, rfl⟩ := Prod.mk.inj h
    exact (stretch_fail node key cause before).mono (by simp)

theorem stretch_connectPrimary (hnode : node ∈ before.state.scene.nodes.keys)
    (hsource : source ∈ before.state.scene.nodes.keys)
    (htag : before.output.tags.find? tag = some source)
    (h : connectPrimary LiveScene.host options source node before = (.ok (), after)) :
    Stretch options [node] { resolved := [(node, tag)] } before after := by
  let connect := fun scene : Scene => scene.connect ⟨source, none⟩ node options.primaryInput
  have hstretch : Stretch options [node] {} before after := stretch_attempt
    (fun _ _ hok => .of_rewrites (Scene.rewrites_of_connect hok)) h
  refine { hstretch with resolved := ?_ }
  intro entry he
  rw [List.mem_singleton.mp he]
  refine ⟨hstretch.state.mem_keys hnode, source, hstretch.find?_tags htag, ?_⟩
  unfold connectPrimary attempt at h
  rcases LiveScene.edit_cases () connect before.state with
    ⟨scene, hok, heq⟩ | ⟨cause, herror, heq⟩
  · have hlive : LiveScene.host.connect ⟨source, none⟩ node options.primaryInput before.state =
        (.ok (), { before.state with scene }) := heq
    rw [hlive] at h
    obtain ⟨-, rfl⟩ := Prod.mk.inj h
    obtain ⟨_, _, slot, hslot, rfl⟩ := Scene.connect_eq_ok_iff.mp hok
    refine Or.inl ?_
    simp [Scene.reads, Scene.slot, Scene.slot?_putSlot, hslot, Except.map]
  · have hlive : LiveScene.host.connect ⟨source, none⟩ node options.primaryInput before.state =
        (.error cause, before.state) := heq
    rw [hlive] at h
    obtain ⟨-, rfl⟩ := Prod.mk.inj h
    refine Or.inr ⟨cause, (Scene.connect_eq_error_iff hsource hnode).mp herror, ?_⟩
    simp [fail]

theorem stretch_feedByTag (hpresent : TagsPresent before)
    (hnode : node ∈ before.state.scene.nodes.keys)
    (htag : before.output.tags.find? tag = some source) {otherwise : BuildStep LiveScene Unit}
    (h : feedByTag LiveScene.host options node tag otherwise before = (.ok (), after)) :
    Stretch options [node] { resolved := [(node, tag)] } before after := by
  unfold feedByTag resolve? at h
  rw [htag] at h
  exact stretch_connectPrimary hnode (hpresent tag source htag) htag h

theorem feedByTag_of_none (hscope : options.tagScope = .build)
    (htag : before.output.tags.find? tag = none) (otherwise : BuildStep LiveScene Unit) :
    feedByTag LiveScene.host options node tag otherwise before = otherwise before := by
  unfold feedByTag resolve?
  rw [htag, hscope]

theorem stretch_wait (hdeferred : options.deferred = true)
    (h : wait options node tag before = (.ok (), after)) :
    Stretch options [node] { waiting := [(node, tag)] } before after := by
  unfold wait at h
  rw [if_pos hdeferred, modify_eq_ok_iff] at h
  subst h
  exact ⟨LiveScene.Extends.mono (.refl _) (by simp), by simp, by simp, by simp,
    List.Subset.refl _, rfl, by simp, by simp⟩

theorem stretch_leaveUnresolved (h : leaveUnresolved node tag before = (.ok (), after)) :
    Stretch options [node] { unresolved := [(node, tag)] } before after := by
  unfold leaveUnresolved at h
  rw [modify_eq_ok_iff] at h
  subst h
  exact ⟨LiveScene.Extends.mono (.refl _) (by simp), by simp, by simp, by simp,
    List.Subset.refl _, by simp, rfl, by simp⟩

/-- Of several nodes with one tag the first counts. -/
theorem stretch_tagNode (hnode : node ∈ before.state.scene.nodes.keys)
    (h : tagNode LiveScene.host options node tag before = (.ok (), after)) :
    Stretch options [node] { tagged := [(node, tag)] } before after := by
  unfold tagNode at h
  obtain ⟨_, mid, hattempt, h⟩ := bind_eq_ok_iff.mp h
  rw [modify_eq_ok_iff] at h
  have hstretch : Stretch options [node] {} before mid :=
    stretch_attempt (fun _ _ hok => .of_setTag hok) hattempt
  have hkept := hstretch.state.mem_keys hnode
  have htags : ∀ other, mid.output.tags.find? other = before.output.tags.find? other := fun other =>
    by simpa using hstretch.tags other
  have htagged : ∀ entry ∈ [(node, tag)], entry.1 ∈ mid.state.scene.nodes.keys := fun entry he =>
    List.mem_singleton.mp he ▸ hkept
  split at h
  next hknown =>
    subst h
    obtain ⟨first, hfirst⟩ := Option.isSome_iff_exists.mp hknown
    refine { hstretch with tags := fun other => ?_, tagged := htagged }
    rw [htags]
    by_cases hother : tag = other
    · rw [← hother, ← htags, hfirst, Option.some_or]
    · simp [hother]
  next hnew =>
    subst h
    have hnone : before.output.tags.find? tag = none := by
      rw [← htags]
      simpa [Table.contains] using hnew
    refine ⟨hstretch.state, hstretch.created, fun other => ?_, htagged, hstretch.failures,
      hstretch.waiting, hstretch.unresolved, by simp⟩
    by_cases hother : tag = other
    · rw [← hother, hnone]
      simp
    · have hfind := Table.find?_insert_of_ne mid.output.tags (Ne.symm hother) node
      simp [hfind, htags, hother]

theorem stretch_create {type : String} (hunused : before.state.NextUnused 1)
    (h : create LiveScene.host type before = (.ok node, after)) :
    Stretch options [] { made := [(node, type)] } before after ∧
      ∃ schema, before.state.scene.schemas.find? type = some schema := by
  have hcreate : LiveScene.host.create type none before.state =
      LiveScene.create type none before.state := rfl
  unfold create at h
  rw [hcreate, LiveScene.create_eq] at h
  split at h
  next cause state hmatch => cases (Prod.mk.inj h).1
  next made state hmatch =>
    split at hmatch
    next hschema =>
      obtain ⟨hmade, rfl⟩ := Prod.mk.inj hmatch
      obtain ⟨hnode, rfl⟩ := Prod.mk.inj h
      obtain rfl := (Except.ok.inj hmade).trans (Except.ok.inj hnode)
      have hadds := Scene.Adds.of_addNode before.state.scene before.state.supply.next type
        (type ++ toString ((before.state.scene.nodesOfType type).length + 1)) none
      refine ⟨⟨.of_adds hadds hunused.next_not_mem, by simp [Except.ok.inj hmade], by simp, by simp,
        List.Subset.refl _, by simp, by simp, by simp⟩, Option.isSome_iff_exists.mp hschema⟩
    next => cases (Prod.mk.inj hmatch).1

end Build

end ShaderMigration
