import ShaderMigration.Proofs.BuiltNetwork

namespace ShaderMigration

namespace Build

namespace Request

def attr? (primary : String) : Request → Option String
  | unlisted _ => none
  | write _ attr _ _ => some attr
  | link _ attr _ _ => some attr
  | refer _ => some primary

/-- The entry of a description that a request stands for. -/
def assigns? : Request → Option (String × SpecValue)
  | unlisted _ => none
  | write key _ value _ => some (key, .literal value)
  | link key _ child _ => some (key, .spec child)
  | refer _ => none

end Request

end Build

namespace NodeSpec

open Build

section Requests

variable {schemas : Table String Schema} {primary : String}

/-- The requests of a list about an attribute are its entries that write there. -/
theorem map_assigns?_requestsOf (attrOf : String → Option String) (made : Nat)
    (entries : List (String × SpecValue)) (attr : String) :
    ((requestsOf schemas attrOf made entries).filter fun request =>
      request.attr? primary == some attr).map Request.assigns? =
        (entries.filter fun entry => attrOf entry.1 == some attr).map some := by
  induction entries generalizing made with
  | nil => rfl
  | cons entry rest ih =>
    obtain ⟨key, value⟩ := entry
    have hrequest : (requestOf (attrOf key) made key value).attr? primary = attrOf key ∧
        ((attrOf key).isSome →
          (requestOf (attrOf key) made key value).assigns? = some (key, value)) := by
      unfold requestOf
      cases attrOf key <;> cases value <;> simp [Request.attr?, Request.assigns?]
    unfold requestsOf
    dsimp only
    rw [List.filter_cons, List.filter_cons, hrequest.1]
    split
    next hattr =>
      rw [List.map_cons, List.map_cons, ih, hrequest.2 (by simp [beq_iff_eq.mp hattr])]
    next => exact ih _

theorem map_assigns?_assignments (spec : NodeSpec) (place : Nat) (attr : String) :
    ((spec.assignments schemas place).filter fun request =>
      request.attr? primary == some attr).map Request.assigns? =
        ((spec.attrs.filter fun entry => entry.1 == attr) ++
          spec.inputs.filter fun entry =>
            attrOfInput? schemas spec.type entry.1 == some attr).map some := by
  unfold assignments
  rw [List.filter_append, List.map_append, map_assigns?_requestsOf, map_assigns?_requestsOf,
    List.map_append]
  simp

theorem filter_requests (spec : NodeSpec) (place : Nat) (attr : String) :
    ((spec.requests schemas primary place).filter fun request =>
      request.attr? primary == some attr) =
        ((spec.assignments schemas place).filter fun request =>
          request.attr? primary == some attr) ++
          if attr = primary then feedRequests primary (spec.madeForFeed schemas place) spec.feed
          else [] := by
  unfold requests
  rw [List.filter_append]
  congr 1
  by_cases heq : attr = primary
  · subst heq
    cases spec.feed <;> simp [feedRequests, Request.attr?]
  · cases spec.feed <;> simp [feedRequests, Request.attr?, heq, Ne.symm heq]

theorem unlisted_mem_requests {spec : NodeSpec} {place : Nat} {entry : String × SpecValue}
    (hentry : entry ∈ spec.inputs) (hnone : attrOfInput? schemas spec.type entry.1 = none) :
    .unlisted entry.1 ∈ spec.requests schemas primary place := by
  have hrequests : ∀ (entries : List (String × SpecValue)) (made : Nat), entry ∈ entries →
      .unlisted entry.1 ∈ requestsOf schemas (attrOfInput? schemas spec.type) made entries := by
    intro entries made hmem
    induction entries generalizing made with
    | nil => cases hmem
    | cons first rest ih =>
      obtain ⟨key, value⟩ := first
      unfold requestsOf
      rcases List.mem_cons.mp hmem with rfl | hmem
      · rw [hnone]
        exact List.mem_cons_self ..
      · exact List.mem_cons_of_mem _ (ih _ hmem)
  exact List.mem_append_left _ (List.mem_append_right _ (hrequests _ _ hentry))

end Requests

/-- The ledger of the node made at a place for a description, when the tags lead to these nodes. -/
def ledger (options : BuildOptions) (start : LiveScene) (total : Nat) (tags : Table String NodeId)
    (place : Nat) (spec : NodeSpec) : Ledger :=
  .after (start.idAt place) (start.scene.freshSlots spec.type).find?
    ((spec.requests start.scene.schemas options.primaryInput place).filterMap
      (Request.call? options start total tags))

/-- How the node that is made at a place stands for its description.  Of what is asked for about an
attribute, one after the other, each is answered or is a reference that is left over; the attribute
shows what it took last, or the default of its type. -/
structure Realized (options : BuildOptions) (start : LiveScene) (specs : List NodeSpec)
    (scene : Scene) (output : BuildOutput) (place : Nat) (spec : NodeSpec) : Prop where
  typed : ∃ found, scene.nodes.find? (start.idAt place) = some found ∧ found.type = spec.type
  nested : ∀ key attr child other, .link key attr child other ∈
    spec.requests start.scene.schemas options.primaryInput place → specs[other]? = some child
  assigned : ∀ attr, ((spec.assignments start.scene.schemas place).filter fun request =>
    request.attr? options.primaryInput == some attr).map Request.assigns? =
      ((spec.attrs.filter fun entry => entry.1 == attr) ++ spec.inputs.filter fun entry =>
        attrOfInput? start.scene.schemas spec.type entry.1 == some attr).map some
  asked : ∀ attr,
    ((spec.requests start.scene.schemas options.primaryInput place).filter fun request =>
      request.attr? options.primaryInput == some attr) =
        ((spec.assignments start.scene.schemas place).filter fun request =>
          request.attr? options.primaryInput == some attr) ++
          if attr = options.primaryInput then feedRequests options.primaryInput
            (spec.madeForFeed start.scene.schemas place) spec.feed
          else []
  answers : (spec.ledger options start specs.length output.tags place).answers.map Prod.fst =
    ((spec.requests start.scene.schemas options.primaryInput place).filterMap
      (Request.call? options start specs.length output.tags)).map Call.order
  answered : ∀ order answer,
    (order, answer) ∈ (spec.ledger options start specs.length output.tags place).answers →
      order.Answered (start.idAt place) (start.scene.freshSlots spec.type).find? answer
  shows : ∃ schema, start.scene.schemas.find? spec.type = some schema ∧ ∀ attr,
    scene.reads.get (start.idAt place) attr = match schema.attributes.find? attr with
      | some default => .ok (((spec.ledger options start specs.length output.tags
          place).lastTaken? attr).getD default)
      | none => .error (.noSuchAttribute (start.idAt place) attr)
  failures : (output.failures.filter fun failure => failure.node == start.idAt place) =
    (spec.ledger options start specs.length output.tags place).refusals (start.idAt place)
  unlisted : ∀ entry ∈ spec.inputs,
    attrOfInput? start.scene.schemas spec.type entry.1 = none →
      ⟨start.idAt place, entry.1, .noSuchAttribute (start.idAt place) entry.1⟩ ∈ output.failures
  unresolved : (output.unresolved.filter fun reference => reference.node == start.idAt place) =
    match spec.feed with
    | .tagged tag => if specs.any fun other => other.tag == some tag then []
      else [⟨start.idAt place, tag⟩]
    | _ => []

end NodeSpec

/-- The nodes that were made are those described, each as its description says, and nothing else is on
record. -/
structure BuildOutput.Realizes (options : BuildOptions) (start : LiveScene) (specs : List NodeSpec)
    (scene : Scene) (output : BuildOutput) : Prop where
  created : output.created = (List.range specs.length).map start.idAt
  keys : scene.nodes.keys = start.scene.nodes.keys ++ output.created
  tags : ∀ tag source, output.tags.find? tag = some source → ∃ place spec,
    specs[place]? = some spec ∧ spec.tag = some tag ∧ source = start.idAt place
  tagged : ∀ tag, output.tags.contains tag = specs.any fun spec => spec.tag == some tag
  nodes : ∀ place (spec : NodeSpec), specs[place]? = some spec →
    spec.Realized options start specs scene output place
  failing : ∀ failure ∈ output.failures, failure.node ∈ output.created
  unresolved : ∀ reference ∈ output.unresolved, reference.node ∈ output.created

theorem Build.exists_node_of_buildAll {options : BuildOptions} (hoptions : options.Deferring)
    {roots : List NodeSpec} {live : LiveScene} {final : Building LiveScene}
    (hrun : buildAll LiveScene.host options roots { state := live } = (.ok (), final))
    (hunused : live.NextUnused
      (roots.flatMap fun spec => spec.described live.scene.schemas).length)
    {place : Nat} {spec : NodeSpec} {node : NodeId}
    (hspec : (roots.flatMap fun spec => spec.described live.scene.schemas)[place]? = some spec)
    (hnode : final.output.created[place]? = some node) :
    ∃ found, final.state.scene.nodes.find? node = some found ∧ found.type = spec.type := by
  obtain ⟨mid, deeds, built, h, hfinish, hanswers, hspecs⟩ :=
    exists_finish_of_buildAll hoptions hrun hunused
  rw [← hspecs, List.getElem?_map] at hspec
  obtain ⟨entry, hentry, rfl⟩ := Option.map_eq_some_iff.mp hspec
  rw [created_eq h hfinish hanswers, List.getElem?_map, hentry] at hnode
  obtain rfl := Option.some.inj hnode
  exact exists_node_of_mem h hfinish hanswers (List.mem_of_getElem? hentry)

namespace Build.Finished

variable {options : BuildOptions} {start : LiveScene} {roots : List NodeSpec}
  {log : List (Nat × Call)} {final : Building LiveScene}
  (h : Finished options start (treeScript options roots start) log final)
include h

theorem contains_tag (tag : String) : final.output.tags.contains tag =
    (roots.flatMap fun spec => spec.described start.scene.schemas).any fun spec =>
      spec.tag == some tag := by
  rw [Bool.eq_iff_iff, h.tags, List.any_eq_true]
  simp only [mem_tag_treeScript_iff, beq_iff_eq]
  constructor
  · intro hplaced
    obtain ⟨place, spec, hspec, htag⟩ := hplaced
    exact ⟨spec, List.mem_of_getElem? hspec, htag⟩
  · intro hsome
    obtain ⟨spec, hmem, htag⟩ := hsome
    obtain ⟨place, hspec⟩ := List.mem_iff_getElem?.mp hmem
    exact ⟨place, spec, hspec, htag⟩

variable {place : Nat} {spec : NodeSpec}
  (hspec : (roots.flatMap fun spec => spec.described start.scene.schemas)[place]? = some spec)
include hspec

theorem ledgerAt_eq : ledgerAt start log place spec.type =
    spec.ledger options start (roots.flatMap fun spec => spec.described start.scene.schemas).length
      final.output.tags place := by
  have hplace := (List.getElem?_eq_some_iff.mp hspec).1
  have hmakes := makes_treeScript options roots start
  unfold ledgerAt NodeSpec.ledger
  rw [h.asked place (hmakes ▸ hplace), hmakes, asksAt_treeScript hspec]

theorem get_eq : ∃ schema, start.scene.schemas.find? spec.type = some schema ∧ ∀ attr,
    final.state.scene.reads.get (start.idAt place) attr = match schema.attributes.find? attr with
      | some default => .ok (((ledgerAt start log place spec.type).lastTaken? attr).getD default)
      | none => .error (.noSuchAttribute (start.idAt place) attr) := by
  have hmakes := makes_treeScript options roots start
  obtain ⟨schema, hschema⟩ := Option.isSome_iff_exists.mp
    (h.replay.declared spec (hmakes ▸ List.mem_of_getElem? hspec))
  refine ⟨schema, hschema, fun attr => ?_⟩
  have hlive := Ledger.live_held_after (start.idAt place) (start.scene.freshSlots spec.type).find?
    (callsAt place log) attr
  have hslot := h.replay.held place spec (hmakes ▸ hspec) attr
  have hfresh : (start.scene.freshSlots spec.type).find? attr =
      (schema.attributes.find? attr).map fun default => { value := default } := by
    unfold Scene.freshSlots
    rw [hschema]
    exact Table.find?_map _ _ _
  rw [hfresh] at hlive
  have hget : final.state.scene.reads.get (start.idAt place) attr =
      match (final.state.scene.slot? (start.idAt place) attr).map Slot.live with
      | some shown => .ok shown
      | none => .error (.noSuchAttribute (start.idAt place) attr) := by
    change (final.state.scene.slot _ attr).map Slot.live = _
    unfold Scene.slot
    cases final.state.scene.slot? (start.idAt place) attr <;> rfl
  rw [hget, hslot, ledgerAt, hlive]
  cases schema.attributes.find? attr <;> rfl

theorem unresolved_eq :
    (final.output.unresolved.filter fun reference => reference.node == start.idAt place) =
      match spec.feed with
      | .tagged tag => if (roots.flatMap fun spec => spec.described start.scene.schemas).any
          fun other => other.tag == some tag then [] else [⟨start.idAt place, tag⟩]
      | _ => [] := by
  have hplace := (List.getElem?_eq_some_iff.mp hspec).1
  have hmakes := makes_treeScript options roots start
  have hassigned : (spec.assignments start.scene.schemas place).filterMap
      (Request.leftOver? final.output.tags (start.idAt place)) = [] := by
    rw [List.filterMap_eq_nil_iff]
    intro request hrequest
    cases request with
    | refer tag => exact absurd hrequest (spec.refer_not_mem_assignments place tag)
    | unlisted => rfl
    | write => rfl
    | link => rfl
  rw [h.unresolved place (hmakes ▸ hplace), asksAt_treeScript hspec, NodeSpec.requests,
    List.filterMap_append, hassigned, List.nil_append]
  cases spec.feed with
  | nothing => rfl
  | node child => rfl
  | tagged tag =>
    dsimp only
    rw [← h.contains_tag]
    cases htag : final.output.tags.contains tag <;>
      simp [NodeSpec.feedRequests, Request.leftOver?, htag]

end Build.Finished

/-- The network that a build leaves behind is the one that the tree describes. -/
theorem realizes_of_build {tree : NodeTree} {options : BuildOptions} {live after : LiveScene}
    {output : BuildOutput} (hscope : options.tagScope = .build)
    (hdeferred : options.deferred = true)
    (hrun : tree.build LiveScene.host options live = (.ok output, after))
    (hunused : live.NextUnused (tree.described live.scene.schemas).length) :
    output.Realizes options live (tree.described live.scene.schemas) after.scene := by
  obtain ⟨final, hall, rfl, rfl⟩ := NodeTree.build_eq_ok_iff.mp hrun
  unfold NodeTree.described at hunused ⊢
  have hoptions : options.Deferring := ⟨hscope, hdeferred⟩
  obtain ⟨log, h⟩ := Build.exists_finished_of_buildAll hoptions hall hunused
  have hmakes := Build.makes_treeScript options tree.roots live
  have hcreated := hmakes ▸ h.replay.created
  refine ⟨hcreated, ?_, ?_, h.contains_tag, ?_, h.replay.failing, h.leaving⟩
  · rw [h.replay.keys, h.replay.created]
    rfl
  · intro tag source hsource
    obtain ⟨place, hplace, hmove⟩ := h.tagged tag source hsource
    obtain ⟨spec, hspec, htag⟩ := Build.mem_tag_treeScript_iff.mp hmove
    exact ⟨place, spec, hspec, htag, hplace⟩
  · intro place spec hspec
    have hledger := h.ledgerAt_eq hspec
    have hfailures := h.replay.failures place spec (hmakes.symm ▸ hspec)
    have hshows := h.get_eq hspec
    rw [hledger] at hfailures hshows
    have hnode : final.output.created[place]? = some (live.idAt place) := by
      have hplace := (List.getElem?_eq_some_iff.mp hspec).1
      rw [hcreated, List.getElem?_map, List.getElem?_range hplace]
      rfl
    refine ⟨Build.exists_node_of_buildAll hoptions hall hunused hspec hnode, ?_,
      fun attr => spec.map_assigns?_assignments place attr,
      fun attr => spec.filter_requests place attr, Build.Ledger.map_fst_answers_after _ _ _,
      fun order answer => Build.Ledger.answered_after, hshows, hfailures, ?_,
      h.unresolved_eq hspec⟩
    · intro key attr child other hlink
      rw [← Build.asksAt_treeScript hspec, Build.mem_asksAt_iff] at hlink
      obtain ⟨_, hchild⟩ := (Build.laid_treeScript options tree.roots live).ordered.of_link hlink
      rwa [List.nil_append, hmakes] at hchild
    · intro entry hentry hnone
      have hrequest : .unlisted entry.1 ∈
          spec.requests live.scene.schemas options.primaryInput place :=
        NodeSpec.unlisted_mem_requests hentry hnone
      refine (List.mem_filter.mp (hfailures ▸ Build.Ledger.mem_refusals_of_unlisted ?_)).1
      exact List.mem_map.mpr ⟨_, List.mem_filterMap.mpr ⟨_, hrequest, rfl⟩, rfl⟩

/-- A stage on which curves have a gain, and two inputs that write to their mask. -/
def maskingStage : LiveScene where
  scene :=
    { schemas := .ofPairs
        [("curves", ⟨"curves",
          .ofPairs [("Input", .float 0.0), ("Mask", .float 0.0), ("Gain", .float 0.5)],
          .ofPairs [("mask", "Mask"), ("matte", "Mask"), ("gain", "Gain")]⟩),
          ("ellipse", ⟨"ellipse", .ofPairs [("Width", .float 0.25)], {}⟩)]
      nodes := {}
      roots := [] }
  supply := ⟨fun n => .ofNat (n + 1), 0⟩

/-- A gain that is given as a truth value, a nested mask that a value replaces, an attribute and an input
that are not there, a connection to a node that is made later, and references to a tag that comes
later and to one that is nowhere. -/
def maskingTree : NodeTree :=
  .many
    [(NodeSpec.ofType "curves").attr "Gain" (.bool true)
        |>.attrNode "Mask" (NodeSpec.ofType "ellipse")
        |>.attr "Width" (.float 1.0)
        |>.attr "Input" (.connection ⟨.ofNat 3, none⟩)
        |>.input "matte" (.float 1.0)
        |>.input "shape" (.float 1.0)
        |>.fedByTag "late",
      ((NodeSpec.ofType "ellipse").tagAs "late").fedByTag "lost"]

def masking : Except HostError BuildOutput × LiveScene :=
  maskingTree.build LiveScene.host {} maskingStage

/-- What the curves show in the end, and all that was refused or left over. -/
theorem masking_realized :
    ∃ output, masking.1 = .ok output ∧
      output.Realizes {} maskingStage (maskingTree.described maskingStage.scene.schemas)
        masking.2.scene ∧
      output.failures.map (fun failure => (failure.node, failure.key)) =
        [(.ofNat 1, "Width"), (.ofNat 1, "Input"), (.ofNat 1, "shape")] ∧
      output.unresolved = [⟨.ofNat 3, "lost"⟩] ∧
      masking.2.scene.reads.get (.ofNat 1) "Mask" = .ok (.float 1.0) ∧
      masking.2.scene.reads.get (.ofNat 1) "Gain" = .ok (.float 1.0) ∧
      masking.2.scene.reads.get (.ofNat 1) "Input" = .ok (.connection ⟨.ofNat 3, none⟩) := by
  have hok : masking.1.isOk = true := by decide +kernel
  have hfacts : masking.1.toOption.map (fun output =>
      (output.failures.map fun failure => (failure.node, failure.key), output.unresolved)) =
        some ([(.ofNat 1, "Width"), (.ofNat 1, "Input"), (.ofNat 1, "shape")],
          [⟨.ofNat 3, "lost"⟩]) := by decide +kernel
  have hshown : masking.2.scene.reads.get (.ofNat 1) "Mask" = .ok (.float 1.0) ∧
      masking.2.scene.reads.get (.ofNat 1) "Gain" = .ok (.float 1.0) ∧
      masking.2.scene.reads.get (.ofNat 1) "Input" = .ok (.connection ⟨.ofNat 3, none⟩) := by
    decide +kernel
  cases hresult : masking.1 with
  | error cause =>
    rw [hresult] at hok
    cases hok
  | ok output =>
    have hrun : masking = (.ok output, masking.2) := by rw [← hresult]
    rw [hresult] at hfacts
    simp only [Except.toOption, Option.map_some, Option.some.injEq, Prod.mk.injEq] at hfacts
    exact ⟨output, rfl, realizes_of_build rfl rfl hrun (by decide +kernel), hfacts.1, hfacts.2,
      hshown⟩

end ShaderMigration
