import ShaderMigration.Proofs.BuildDescribed
import Mathlib.Data.List.Nodup

namespace ShaderMigration

namespace Build

variable {options : BuildOptions} {before after : Building LiveScene}

/-- Those references are resolved whose tags are set, and the others recorded. -/
def answers (tags : Table String NodeId) (references : List (NodeId × String)) : Deeds where
  resolved := references.filter fun entry => tags.contains entry.2
  unresolved := references.filter fun entry => !tags.contains entry.2

theorem answers_cons (tags : Table String NodeId) (entry : NodeId × String)
    (rest : List (NodeId × String)) :
    answers tags (entry :: rest) = answers tags [entry] ++ answers tags rest := by
  rw [Deeds.append_eq]
  simp only [answers, ← List.filter_append, List.singleton_append, List.nil_append]

theorem stretch_answer (hscope : options.tagScope = .build) {node : NodeId} {tag : String}
    (hpresent : TagsPresent before) (hnode : node ∈ before.state.scene.nodes.keys)
    (h : feedByTag LiveScene.host options node tag (leaveUnresolved node tag) before =
      (.ok (), after)) :
    Stretch options [node] (answers before.output.tags [(node, tag)]) before after := by
  cases htag : before.output.tags.find? tag with
  | some source =>
    have hstretch := stretch_feedByTag hpresent hnode htag h
    simpa [answers, Table.contains, htag] using hstretch
  | none =>
    rw [feedByTag_of_none hscope htag] at h
    have hstretch : Stretch options [node] _ before after := stretch_leaveUnresolved h
    simpa [answers, Table.contains, htag] using hstretch

/-- When the tree is built, every reference that waited is answered by the tags that are set. -/
theorem stretch_resolveWaiting (hscope : options.tagScope = .build)
    (references : List (NodeId × String)) (hnodup : (references.map Prod.fst).Nodup)
    (hpresent : TagsPresent before)
    (hnodes : ∀ entry ∈ references, entry.1 ∈ before.state.scene.nodes.keys)
    (h : resolveWaiting LiveScene.host options references before = (.ok (), after)) :
    Stretch options (references.map Prod.fst) (answers before.output.tags references)
      before after := by
  induction references generalizing before with
  | nil =>
    obtain ⟨-, rfl⟩ := pure_eq_ok_iff.mp h
    exact .refl before
  | cons entry rest ih =>
    obtain ⟨node, tag⟩ := entry
    rw [List.map_cons, List.nodup_cons] at hnodup
    obtain ⟨_, mid, hfirst, h⟩ := bind_eq_ok_iff.mp h
    have hanswer :=
      stretch_answer hscope hpresent (hnodes (node, tag) (List.mem_cons_self ..)) hfirst
    have hrest := ih hnodup.2 (hanswer.tagsPresent hpresent)
      (fun entry he => hanswer.state.mem_keys (hnodes entry (List.mem_cons_of_mem _ he))) h
    -- no tag is set by an answer
    have htags : ∀ tag, mid.output.tags.contains tag = before.output.tags.contains tag := fun tag =>
      by simp [Table.contains, hanswer.tags, answers]
    have hsame : answers mid.output.tags rest = answers before.output.tags rest := by
      simp only [answers, htags]
    rw [hsame] at hrest
    rw [answers_cons]
    refine hanswer.trans hrest ?_
    intro entry he hm
    have hentry : entry = (node, tag) := List.mem_singleton.mp (List.mem_filter.mp he).1
    exact hnodup.1 (hentry ▸ hm)

end Build

/-- How the references of the descriptions stand after a build: with every node goes the description
that it was made for. -/
structure BuildOutput.Settles (options : BuildOptions) (specs : List NodeSpec) (scene : Scene)
    (output : BuildOutput) : Prop where
  created : output.created.length = specs.length
  nodup : output.created.Nodup
  types : ∀ node spec, (node, spec) ∈ output.created.zip specs →
    ∃ found, scene.nodes.find? node = some found ∧ found.type = spec.type
  resolved : ∀ node spec tag, (node, spec) ∈ output.created.zip specs → spec.feed = .tagged tag →
    (∃ other ∈ specs, other.tag = some tag) →
      ∃ source, output.tags.find? tag = some source ∧
        (∃ other, (source, other) ∈ output.created.zip specs ∧ other.tag = some tag) ∧
        (scene.reads.connections node options.primaryInput = .ok [⟨source, none⟩] ∨
          ∃ cause, scene.connect ⟨source, none⟩ node options.primaryInput = .error cause ∧
            (cause = .rejected node options.primaryInput .selfConnection ∨
              cause = .noSuchAttribute node options.primaryInput) ∧
            ⟨node, options.primaryInput, cause⟩ ∈ output.failures)
  unresolved_nodup : output.unresolved.Nodup
  mem_unresolved_iff : ∀ reference, reference ∈ output.unresolved ↔
    (∃ spec, (reference.node, spec) ∈ output.created.zip specs ∧
      spec.feed = .tagged reference.tag) ∧ ∀ other ∈ specs, other.tag ≠ some reference.tag

namespace Build

theorem buildAll_eq_ok_iff {σ : Type} {host : Host σ} {options : BuildOptions}
    {specs : List NodeSpec} {before after : Building σ} :
    buildAll host options specs before = (.ok (), after) ↔
      ∃ mid, buildRoots host options specs before = (.ok (), mid) ∧
        resolveWaiting host options mid.waiting mid = (.ok (), after) := by
  unfold buildAll
  rw [bind_eq_ok_iff]
  constructor
  · intro h
    obtain ⟨_, mid, hroots, h⟩ := h
    obtain ⟨_, _, hget, h⟩ := bind_eq_ok_iff.mp h
    obtain ⟨hmid, rfl⟩ := Prod.mk.inj hget
    rw [← Except.ok.inj hmid] at h
    exact ⟨mid, hroots, h⟩
  · intro h
    obtain ⟨mid, hroots, h⟩ := h
    exact ⟨(), mid, hroots, bind_eq_ok_iff.mpr ⟨mid, mid, rfl, h⟩⟩

theorem tagsPresent_initial (live : LiveScene) : TagsPresent { state := live } :=
  fun _ _ htag => nomatch htag

section Built

variable {live : LiveScene} {deeds : Deeds} {built : List (NodeId × NodeSpec)} {tag : String}
  (h : Stretch options [] deeds { state := live } after) (hfinish : deeds.Finish built [] [])
include h hfinish

theorem exists_tag_of_find? {source : NodeId} (htag : after.output.tags.find? tag = some source) :
    ∃ spec, (source, spec) ∈ built ∧ spec.tag = some tag := by
  have hfirst : (deeds.tagged.find? fun entry => entry.2 == tag).map Prod.fst = some source := by
    rw [← htag, h.tags]
    rfl
  obtain ⟨entry, he, rfl⟩ := Option.map_eq_some_iff.mp hfirst
  have htagged := hfinish.tagged.subset (List.mem_of_find?_eq_some he)
  have hsame : entry.2 = tag := by simpa using List.find?_some he
  exact mem_labels_iff.mp (hsame ▸ htagged)

theorem contains_tag_iff :
    after.output.tags.contains tag = true ↔ ∃ spec ∈ built.map Prod.snd, spec.tag = some tag := by
  constructor
  · intro hknown
    obtain ⟨source, hsource⟩ := Option.isSome_iff_exists.mp hknown
    obtain ⟨spec, hspec, htag⟩ := exists_tag_of_find? h hfinish hsource
    exact ⟨spec, List.mem_map_of_mem hspec, htag⟩
  · intro hcarried
    obtain ⟨spec, hspec, htag⟩ := hcarried
    obtain ⟨⟨node, _⟩, hmem, rfl⟩ := List.mem_map.mp hspec
    have htagged : (node, tag) ∈ deeds.tagged :=
      hfinish.tagged.mem_iff.mpr (mem_labels_iff.mpr ⟨_, hmem, htag⟩)
    have hfound : (deeds.tagged.find? fun entry => entry.2 == tag).isSome = true := by
      rw [List.find?_isSome]
      exact ⟨_, htagged, by simp⟩
    have hnone : (BuildOutput.tags {}).find? tag = none := rfl
    simpa [Table.contains, h.tags, hnone] using hfound

omit h in
theorem mem_references_iff {node : NodeId} : (node, tag) ∈ deeds.resolved ++ deeds.waiting ↔
    ∃ spec, (node, spec) ∈ built ∧ spec.feed = .tagged tag := by
  rw [hfinish.referred.mem_iff, List.nil_append, mem_labels_iff]
  simp only [Feed.reference?_eq_some_iff]

/-- Every node refers to one tag at most, so the references that wait are those of other nodes than
the resolved ones. -/
theorem nodup_waiting : (deeds.waiting.map Prod.fst).Nodup ∧
    ∀ entry ∈ deeds.resolved, entry.1 ∉ deeds.waiting.map Prod.fst := by
  have hbuilt : (built.map Prod.fst).Nodup := hfinish.map_made ▸ h.state.nodup_made
  have hreferences : ((deeds.resolved ++ deeds.waiting).map Prod.fst).Nodup := by
    rw [(hfinish.referred.map Prod.fst).nodup_iff, List.nil_append]
    exact hbuilt.sublist (map_fst_labels_sublist _ built)
  rw [List.map_append, List.nodup_append] at hreferences
  obtain ⟨-, hwaiting, happart⟩ := hreferences
  refine ⟨hwaiting, fun entry he hm => ?_⟩
  exact happart entry.1 (List.mem_map_of_mem he) entry.1 hm rfl

theorem present_of_mem_waiting {entry : NodeId × String} (he : entry ∈ deeds.waiting) :
    entry.1 ∈ after.state.scene.nodes.keys := by
  obtain ⟨spec, hspec, _⟩ := (mem_references_iff hfinish).mp (List.mem_append_right _ he)
  rw [h.state.keys, hfinish.map_made]
  exact List.mem_append_right _ (List.mem_map_of_mem hspec)

section Answered

variable {final : Building LiveScene} (hanswers : Stretch options (deeds.waiting.map Prod.fst)
  (answers after.output.tags deeds.waiting) after final)
include hanswers

omit h hfinish in
theorem find?_tags_answered (tag : String) :
    final.output.tags.find? tag = after.output.tags.find? tag := by
  simp [hanswers.tags, answers]

/-- Early or late, a reference to a tag that is set is resolved. -/
theorem fed_of_reference {node : NodeId} {spec : NodeSpec} (hnode : (node, spec) ∈ built)
    (hfeed : spec.feed = .tagged tag) (htag : after.output.tags.contains tag = true) :
    Fed options final node tag := by
  rcases List.mem_append.mp ((mem_references_iff hfinish).mpr ⟨spec, hnode, hfeed⟩) with
    hearly | hlate
  · exact hanswers.fed (h.resolved _ hearly) ((nodup_waiting h hfinish).2 _ hearly)
  · exact hanswers.resolved _ (List.mem_filter.mpr ⟨hlate, htag⟩)

/-- The answer to a reference is the node that its tag leads to in the end, however late that node
was built. -/
theorem resolved_of_reference {node : NodeId} {spec : NodeSpec} (hnode : (node, spec) ∈ built)
    (hfeed : spec.feed = .tagged tag)
    (hcarried : ∃ other ∈ built.map Prod.snd, other.tag = some tag) :
    ∃ source, final.output.tags.find? tag = some source ∧
      (∃ other, (source, other) ∈ built ∧ other.tag = some tag) ∧
      (final.state.scene.reads.connections node options.primaryInput = .ok [⟨source, none⟩] ∨
        ∃ cause,
          final.state.scene.connect ⟨source, none⟩ node options.primaryInput = .error cause ∧
          (cause = .rejected node options.primaryInput .selfConnection ∨
            cause = .noSuchAttribute node options.primaryInput) ∧
          ⟨node, options.primaryInput, cause⟩ ∈ final.output.failures) := by
  have hfed := fed_of_reference h hfinish hanswers hnode hfeed
    ((contains_tag_iff h hfinish).mpr hcarried)
  obtain ⟨source, htag, hanswer⟩ := hfed.answer
  have hset : after.output.tags.find? tag = some source :=
    (find?_tags_answered hanswers tag).symm.trans htag
  refine ⟨source, htag, exists_tag_of_find? h hfinish hset, hanswer.imp_right fun hrefused => ?_⟩
  obtain ⟨cause, hrefuses, hfailure⟩ := hrefused
  have hsource := hanswers.tagsPresent (h.tagsPresent (tagsPresent_initial live)) tag source htag
  refine ⟨cause, (Scene.connect_eq_error_iff hsource hfed.present).mpr hrefuses, ?_, hfailure⟩
  exact hrefuses.imp (fun hself => hself.2) fun hmissing => hmissing.2.2

theorem created_eq : final.output.created = built.map Prod.fst := by
  have hmid : after.output.created = deeds.made.map Prod.fst := by simpa using h.created
  have hfinal : final.output.created = after.output.created := by
    simpa [answers] using hanswers.created
  rw [hfinal, hmid, hfinish.map_made]

theorem exists_node_of_mem {node : NodeId} {spec : NodeSpec} (hnode : (node, spec) ∈ built) :
    ∃ found, final.state.scene.nodes.find? node = some found ∧ found.type = spec.type := by
  have hmade : (node, spec.type) ∈ deeds.made :=
    hfinish.made ▸ List.mem_map.mpr ⟨(node, spec), hnode, rfl⟩
  obtain ⟨found, hfound, _, htype, _⟩ := h.state.node _ hmade
  obtain ⟨found', hfound', _, htype', _⟩ := hanswers.state.kept hfound
  exact ⟨found', hfound', htype'.trans htype⟩

theorem unresolved_eq : final.output.unresolved = (deeds.waiting.filter fun entry =>
    !after.output.tags.contains entry.2).map fun entry => ⟨entry.1, entry.2⟩ := by
  rw [hanswers.unresolved, h.unresolved, hfinish.unresolved]
  rfl

theorem nodup_unresolved : final.output.unresolved.Nodup := by
  have hwaiting : deeds.waiting.Nodup := List.Nodup.of_map Prod.fst (nodup_waiting h hfinish).1
  rw [unresolved_eq h hfinish hanswers]
  refine (hwaiting.filter _).map fun first second heq => ?_
  obtain ⟨hnode, htag⟩ := UnresolvedReference.mk.inj heq
  exact Prod.ext hnode htag

theorem mem_unresolved_iff {reference : UnresolvedReference} :
    reference ∈ final.output.unresolved ↔
      (∃ spec, (reference.node, spec) ∈ built ∧ spec.feed = .tagged reference.tag) ∧
        ∀ spec ∈ built.map Prod.snd, spec.tag ≠ some reference.tag := by
  have hnone : (∀ spec ∈ built.map Prod.snd, spec.tag ≠ some reference.tag) ↔
      after.output.tags.contains reference.tag = false := by
    rw [← Bool.not_eq_true, contains_tag_iff h hfinish]
    simp only [not_exists, not_and]
  rw [hnone, ← mem_references_iff hfinish, unresolved_eq h hfinish hanswers, List.mem_map]
  constructor
  · intro hm
    obtain ⟨entry, he, rfl⟩ := hm
    obtain ⟨hwaiting, htag⟩ := List.mem_filter.mp he
    exact ⟨List.mem_append_right _ hwaiting, by simpa using htag⟩
  · intro hm
    obtain ⟨hmem, htag⟩ := hm
    have hwaiting := (List.mem_append.mp hmem).resolve_left fun hearly => by
      obtain ⟨source, hsource, _⟩ := (h.resolved _ hearly).answer
      simp [Table.contains, hsource] at htag
    exact ⟨_, List.mem_filter.mpr ⟨hwaiting, by simpa using htag⟩, rfl⟩

end Answered

end Built

/-- A build makes and finishes the nodes that are described, then answers the references that
waited. -/
theorem exists_finish_of_buildAll (hoptions : options.Deferring) {roots : List NodeSpec}
    {live : LiveScene} {final : Building LiveScene}
    (hrun : buildAll LiveScene.host options roots { state := live } = (.ok (), final))
    (hunused : live.NextUnused
      (roots.flatMap fun spec => spec.described live.scene.schemas).length) :
    ∃ mid deeds built, Stretch options [] deeds { state := live } mid ∧
      deeds.Finish built [] [] ∧
      Stretch options (deeds.waiting.map Prod.fst) (answers mid.output.tags deeds.waiting)
        mid final ∧
      built.map Prod.snd = roots.flatMap fun spec => spec.described live.scene.schemas := by
  obtain ⟨mid, hroots, hwaiting⟩ := buildAll_eq_ok_iff.mp hrun
  obtain ⟨deeds, built, h, hfinish, hspecs⟩ := builds_buildRoots hoptions roots hroots (by simp)
    ⟨rfl, tagsPresent_initial live, hunused⟩
  have hqueue : mid.waiting = deeds.waiting := by simpa using h.waiting
  rw [hqueue] at hwaiting
  have hanswers := stretch_resolveWaiting hoptions.scope deeds.waiting (nodup_waiting h hfinish).1
    (h.tagsPresent (tagsPresent_initial live))
    (fun entry he => present_of_mem_waiting h hfinish he) hwaiting
  exact ⟨mid, deeds, built, h, hfinish, hanswers, hspecs⟩

end Build

theorem NodeTree.build_eq_ok_iff {σ : Type} {tree : NodeTree} {host : Host σ}
    {options : BuildOptions} {state after : σ} {output : BuildOutput} :
    tree.build host options state = (.ok output, after) ↔
      ∃ final, Build.buildAll host options tree.roots { state } = (.ok (), final) ∧
        final.output = output ∧ final.state = after := by
  unfold NodeTree.build
  constructor
  · intro h
    split at h
    next final hall =>
      obtain ⟨houtput, hstate⟩ := Prod.mk.inj h
      exact ⟨final, hall, Except.ok.inj houtput, hstate⟩
    next => cases (Prod.mk.inj h).1
  · intro h
    obtain ⟨final, hall, rfl, rfl⟩ := h
    rw [hall]

/-- Wherever its producer stands, a reference is resolved if some node that is built has its tag:
then the node that the tag leads to feeds the primary input, or the scene refuses just that
connection.  Any other reference is recorded once, and nothing else is. -/
theorem settles_of_build {tree : NodeTree} {options : BuildOptions} {live after : LiveScene}
    {output : BuildOutput} (hscope : options.tagScope = .build)
    (hdeferred : options.deferred = true)
    (hrun : tree.build LiveScene.host options live = (.ok output, after))
    (hunused : live.NextUnused (tree.described live.scene.schemas).length) :
    output.Settles options (tree.described live.scene.schemas) after.scene := by
  obtain ⟨final, hall, rfl, rfl⟩ := NodeTree.build_eq_ok_iff.mp hrun
  obtain ⟨mid, deeds, built, h, hfinish, hanswers, hspecs⟩ :=
    Build.exists_finish_of_buildAll ⟨hscope, hdeferred⟩ hall hunused
  rw [NodeTree.described, ← hspecs]
  have hcreated := Build.created_eq h hfinish hanswers
  have hzip : final.output.created.zip (built.map Prod.snd) = built :=
    (List.zip_of_prod hcreated.symm rfl).symm
  refine ⟨?_, ?_, ?_, ?_, Build.nodup_unresolved h hfinish hanswers, fun reference => ?_⟩
  · rw [hcreated, List.length_map, List.length_map]
  · rw [hcreated, ← hfinish.map_made]
    exact h.state.nodup_made
  · rw [hzip]
    exact fun node spec hnode => Build.exists_node_of_mem h hfinish hanswers hnode
  · rw [hzip]
    exact fun node spec tag hnode hfeed hcarried =>
      Build.resolved_of_reference h hfinish hanswers hnode hfeed hcarried
  · rw [hzip]
    exact Build.mem_unresolved_iff h hfinish hanswers

/-- A stage on which nodes can be graded, masked and saved, and none of them drawn upon. -/
def gradingStage : LiveScene where
  scene :=
    { schemas := .ofPairs
        [("curves", ⟨"curves", .ofPairs [("Input", .float 0.0), ("Mask", .float 0.0)], {}⟩),
          ("saver", ⟨"saver", .ofPairs [("Input", .float 0.0)], {}⟩),
          ("ellipse", ⟨"ellipse", .ofPairs [("Width", .float 0.5)], {}⟩)]
      nodes := {}
      roots := [] }
  supply := ⟨fun n => .ofNat (n + 1), 0⟩

/-- References ahead, back, upwards and to the node itself, one where there is no input, and one to
a tag that is nowhere. -/
def gradingTree : NodeTree :=
  .many
    [(NodeSpec.ofType "saver").fedByTag "grade",
      ((NodeSpec.ofType "curves").tagAs "grade").attrNode "Mask"
        ((NodeSpec.ofType "saver").fedByTag "grade"),
      ((NodeSpec.ofType "curves").tagAs "grade").fedByTag "loop",
      (NodeSpec.ofType "ellipse").fedByTag "grade",
      ((NodeSpec.ofType "saver").tagAs "loop").fedByTag "loop",
      (NodeSpec.ofType "saver").fedByTag "lost"]

def grading : Except HostError BuildOutput × LiveScene :=
  gradingTree.build LiveScene.host {} gradingStage

/-- Of the two nodes tagged `grade` the first feeds all the others. -/
theorem grading_settled :
    ∃ output, grading.1 = .ok output ∧
      output.Settles {} (gradingTree.described gradingStage.scene.schemas) grading.2.scene ∧
      output.created = [.ofNat 1, .ofNat 2, .ofNat 3, .ofNat 4, .ofNat 5, .ofNat 6, .ofNat 7] ∧
      output.tags.find? "grade" = some (.ofNat 2) ∧
      output.unresolved = [⟨.ofNat 7, "lost"⟩] ∧
      output.failures.map BuildFailure.node = [.ofNat 5, .ofNat 6] := by
  have hok : grading.1.isOk = true := by decide +kernel
  have hfacts : grading.1.toOption.map (fun output => (output.created,
      output.tags.find? "grade", output.unresolved, output.failures.map BuildFailure.node)) =
      some ([.ofNat 1, .ofNat 2, .ofNat 3, .ofNat 4, .ofNat 5, .ofNat 6, .ofNat 7],
        some (.ofNat 2), [⟨.ofNat 7, "lost"⟩], [.ofNat 5, .ofNat 6]) := by decide +kernel
  cases hresult : grading.1 with
  | error cause =>
    rw [hresult] at hok
    cases hok
  | ok output =>
    have hrun : grading = (.ok output, grading.2) := by rw [← hresult]
    rw [hresult] at hfacts
    simp only [Except.toOption, Option.map_some, Option.some.injEq, Prod.mk.injEq] at hfacts
    exact ⟨output, rfl, settles_of_build rfl rfl hrun (by decide +kernel), hfacts⟩

end ShaderMigration
