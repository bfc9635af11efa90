import ShaderMigration.Proofs.WalkReach
import Mathlib.Data.Set.Card

namespace ShaderMigration

open Relation (ReflTransGen TransGen)

/-- No node that is reached from the root lies on a cycle. -/
def LoopFree (edges : NodeId → List Edge) (root : NodeId) : Prop :=
  ∀ node, ReflTransGen (Leads edges) root node → ¬ TransGen (Leads edges) node node

/-- The walk of a node by recursion: its edges in order, each followed by the walk of its child. -/
inductive Walked (edges : NodeId → List Edge) : NodeId → List Edge → Prop
  | node {root : NodeId} {below : NodeId → List Edge}
      (h : ∀ edge ∈ edges root, Walked edges edge.child (below edge.child)) :
      Walked edges root ((edges root).flatMap fun edge => edge :: below edge.child)

/-- Asked again and again, the walker yields the edges of the list, and then no more. -/
inductive Walker.Yields (edges : NodeId → List Edge) : Walker → List Edge → Prop
  | done {walker : Walker} (h : walker.next? edges = none) : Yields edges walker []
  | next {walker later : Walker} {edge : Edge} {rest : List Edge}
      (h : walker.next? edges = some (edge, later)) (hrest : Yields edges later rest) :
      Yields edges walker (edge :: rest)

/-- The edges lead from a node to the target, each from where the one before it has led. -/
def Trail (edges : NodeId → List Edge) (target : NodeId) : NodeId → List Edge → Prop
  | node, [] => node = target
  | node, edge :: rest => edge ∈ edges node ∧ Trail edges target edge.child rest

/-- The attribute that the edge feeds, or the slot of it, shows the plug of the edge. -/
def Reads.Shows (reads : Reads) (edge : Edge) : Prop :=
  ∃ value, reads.get edge.parent edge.attr = .ok value ∧
    value.plugAt? edge.index = some ⟨edge.child, edge.channel⟩

theorem Reads.Shows.eq {reads : Reads} {edge other : Edge} (h : reads.Shows edge)
    (h' : reads.Shows other) (hparent : edge.parent = other.parent) (hattr : edge.attr = other.attr)
    (hindex : edge.index = other.index) : edge = other := by
  obtain ⟨parent, attr, child, index, channel⟩ := edge
  obtain ⟨parent', attr', child', index', channel'⟩ := other
  obtain rfl : parent = parent' := hparent
  obtain rfl : attr = attr' := hattr
  obtain rfl : index = index' := hindex
  obtain ⟨value, hget, hplug⟩ := h
  obtain ⟨value', hget', hplug'⟩ := h'
  obtain rfl : value = value' := Except.ok.inj (hget.symm.trans hget')
  obtain ⟨rfl, rfl⟩ := Plug.mk.inj (Option.some.inj (hplug.symm.trans hplug'))
  rfl

section Walks

variable {edges : NodeId → List Edge} {root : NodeId} {walk : List Edge}

theorem Walked.eq {other : List Edge} (h : Walked edges root walk) (h' : Walked edges root other) :
    walk = other := by
  induction h generalizing other with
  | @node root below _ ih =>
    cases h' with
    | @node _ below' hbelow' =>
      refine List.flatMap_congr fun edge hedge => ?_
      rw [ih edge hedge (hbelow' edge hedge)]

theorem walked_of_walkWithin {depth : Nat} (h : walkWithin edges depth root = some walk) :
    Walked edges root walk := by
  induction depth generalizing root walk with
  | zero =>
    unfold walkWithin at h
    split at h
    next hempty =>
      cases h
      have hnil : edges root = [] := List.isEmpty_iff.mp hempty
      simpa [hnil] using @Walked.node edges root (fun _ => []) (by simp [hnil])
    next => cases h
  | succ depth ih =>
    obtain ⟨parts, hparts, rfl⟩ := Option.map_eq_some_iff.mp h
    have hbelow : ∀ edge ∈ edges root, walkWithin edges depth edge.child =
        some ((walkWithin edges depth edge.child).getD []) := by
      intro edge hedge
      obtain ⟨part, _, hpart⟩ := (mapM_eq_some_mem hparts).1 edge hedge
      obtain ⟨below, hbelow, _⟩ := Option.map_eq_some_iff.mp hpart
      rw [hbelow, Option.getD_some]
    have hall : (edges root).mapM (fun edge =>
        (walkWithin edges depth edge.child).map fun below => edge :: below) =
          some ((edges root).map fun edge => edge :: (walkWithin edges depth edge.child).getD []) := by
      refine mapM_eq_some_map fun edge hedge => ?_
      rw [hbelow edge hedge]
      rfl
    obtain rfl := Option.some.inj (hparts.symm.trans hall)
    rw [← List.flatMap_def]
    exact @Walked.node edges root (fun child => (walkWithin edges depth child).getD [])
      fun edge hedge => ih (hbelow edge hedge)

theorem count_flatMap_cons (first : Edge) (listed : List Edge) (below : Edge → List Edge) :
    (listed.flatMap fun edge => edge :: below edge).count first =
      listed.count first + (listed.map fun edge => (below edge).count first).sum := by
  induction listed with
  | nil => rfl
  | cons edge rest ih =>
    simp only [List.flatMap_cons, List.cons_append, List.count_cons, List.count_append, ih,
      List.map_cons, List.sum_cons]
    omega

/-- The trails that begin with an edge of a list, if those from the children are known. -/
theorem nodup_flatMap_map_cons {listed : List Edge} {trails : Edge → List (List Edge)}
    (hlisted : listed.Nodup) (htrails : ∀ edge ∈ listed, (trails edge).Nodup) :
    (listed.flatMap fun edge => (trails edge).map (edge :: ·)).Nodup := by
  refine List.nodup_flatMap.mpr ⟨fun edge hedge => ?_, hlisted.imp fun hne => ?_⟩
  · exact (htrails edge hedge).map (List.cons_injective)
  · intro trail hfirst hother
    obtain ⟨rest, _, rfl⟩ := List.mem_map.mp hfirst
    obtain ⟨rest', _, heq⟩ := List.mem_map.mp hother
    exact hne (List.cons.inj heq).1.symm

/-- In the walk of a node an edge occurs once for each trail to its parent. -/
theorem Walked.exists_trails (h : Walked edges root walk) (hnodup : ∀ node, (edges node).Nodup)
    (hparent : ∀ node, ∀ edge ∈ edges node, edge.parent = node) {last : Edge}
    (hlast : last ∈ edges last.parent) :
    ∃ trails : List (List Edge), trails.Nodup ∧
      (∀ trail, trail ∈ trails ↔ Trail edges last.parent root trail) ∧
        walk.count last = trails.length := by
  induction h with
  | @node root below _ ih =>
    choose! trails hdistinct hmem hlength using ih
    have hhere : last ∈ edges root ↔ root = last.parent :=
      ⟨fun hm => (hparent root last hm).symm, fun heq => heq ▸ hlast⟩
    -- the empty trail if the walk starts at the parent, and each edge before the trails of its child
    refine ⟨(if root = last.parent then [[]] else []) ++
      (edges root).flatMap fun edge => (trails edge).map (edge :: ·), ?_, ?_, ?_⟩
    · refine List.nodup_append.mpr ⟨by split <;> simp,
        nodup_flatMap_map_cons (hnodup root) hdistinct, ?_⟩
      intro trail htrail other hother heq
      obtain ⟨edge, _, hedge⟩ := List.mem_flatMap.mp hother
      obtain ⟨rest, _, rfl⟩ := List.mem_map.mp hedge
      subst heq
      split at htrail <;> simp at htrail
    · intro trail
      cases trail with
      | nil => simp [Trail]
      | cons edge rest =>
        have hskip : edge :: rest ∉ (if root = last.parent then [[]] else []) := by
          split <;> simp
        rw [List.mem_append, or_iff_right hskip, List.mem_flatMap]
        constructor
        · intro hh
          obtain ⟨other, hother, htrail⟩ := hh
          obtain ⟨later, hlater, heq⟩ := List.mem_map.mp htrail
          obtain ⟨rfl, rfl⟩ := List.cons.inj heq
          exact ⟨hother, (hmem other hother later).mp hlater⟩
        · intro hh
          exact ⟨edge, hh.1, List.mem_map_of_mem ((hmem edge hh.1 rest).mpr hh.2)⟩
    · have hlater : (edges root).map (fun edge => (below edge.child).count last) =
          (edges root).map fun edge => (trails edge).length := List.map_congr_left hlength
      rw [count_flatMap_cons, (hnodup root).count, hlater, List.length_append, List.length_flatMap]
      simp only [hhere, List.length_map]
      split <;> rfl

namespace Walker

theorem Yields.of_next?_eq {walker other : Walker} (h : Yields edges walker walk)
    (heq : walker.next? edges = other.next? edges) : Yields edges other walk := by
  cases h with
  | done h => exact .done (heq ▸ h)
  | next h hrest => exact .next (heq ▸ h) hrest

/-- Whether an empty list is put on the stack makes no difference to what comes next. -/
theorem next?_push (below : List Edge) (stack : List (List Edge)) :
    next? edges ⟨push below stack⟩ = next? edges ⟨below :: stack⟩ := by
  cases below with
  | nil => rfl
  | cons edge later => rfl

/-- The walk of a node is yielded before everything that is left on the stack below its edges. -/
theorem yields_of_walked (h : Walked edges root walk) {stack : List (List Edge)} {rest : List Edge}
    (hrest : Yields edges ⟨stack⟩ rest) : Yields edges ⟨edges root :: stack⟩ (walk ++ rest) := by
  induction h generalizing stack rest with
  | @node root below _ ih =>
    have hlater : ∀ later ⊆ edges root, Yields edges ⟨later :: stack⟩
        ((later.flatMap fun edge => edge :: below edge.child) ++ rest) := by
      intro later
      induction later with
      | nil => exact fun _ => hrest.of_next?_eq rfl
      | cons edge later ihlater =>
        intro hsub
        obtain ⟨hedge, hsub⟩ := List.cons_subset.mp hsub
        -- the edges of the child lie on what is left of the list, so its walk comes first
        have hchild : Yields edges ⟨push (edges edge.child) (later :: stack)⟩
            (below edge.child ++ ((later.flatMap fun edge => edge :: below edge.child) ++ rest)) :=
          (ih edge hedge (ihlater hsub)).of_next?_eq (next?_push _ _).symm
        simpa using Yields.next rfl hchild
    exact hlater (edges root) (List.Subset.refl _)

theorem yields_start (h : Walked edges root walk) : (start edges root).Yields edges walk := by
  simpa [start] using yields_of_walked h (.done rfl)

theorem Yields.take_eq {walker : Walker} (h : Yields edges walker walk) (limit : Nat) :
    take edges limit walker = walk.take limit := by
  induction h generalizing limit with
  | done h =>
    cases limit with
    | zero => rfl
    | succ limit => simp [take, h]
  | next h _ ih =>
    cases limit with
    | zero => rfl
    | succ limit => simp [take, h, ih]

end Walker

end Walks

theorem nodup_ofItems (parent : NodeId) (attr : String) (start : Nat) (items : List Value) :
    (Edge.ofItems parent attr start items).Nodup := by
  induction items generalizing start with
  | nil => exact List.nodup_nil
  | cons item rest ih =>
    cases item with
    | connection plug =>
      refine List.nodup_cons.mpr ⟨fun hmem => ?_, ih (start + 1)⟩
      obtain ⟨i, _, _, heq⟩ := mem_ofItems_iff.mp hmem
      have hindex : start = start + 1 + i := Option.some.inj (congrArg Edge.index heq)
      omega
    | scalar payload => exact ih (start + 1)
    | array items => exact ih (start + 1)

theorem nodup_ofValue (parent : NodeId) (attr : String) (value : Value) :
    (Edge.ofValue parent attr value).Nodup := by
  cases value with
  | connection plug => exact List.nodup_singleton _
  | array items => exact nodup_ofItems parent attr 0 items
  | scalar payload => exact List.nodup_nil

namespace Scene

variable {scene : Scene} {node : NodeId} {edge : Edge}

theorem shows_iff : scene.reads.Shows edge ↔ ∃ slot, scene.slot? edge.parent edge.attr = some slot ∧
    slot.live.plugAt? edge.index = some ⟨edge.child, edge.channel⟩ := by
  constructor
  · intro h
    obtain ⟨value, hget, hplug⟩ := h
    obtain ⟨slot, hslot, rfl⟩ := except_map_eq_ok_iff.mp hget
    exact ⟨slot, slot_eq_ok_iff.mp hslot, hplug⟩
  · intro h
    obtain ⟨slot, hslot, hplug⟩ := h
    exact ⟨_, except_map_eq_ok_iff.mpr ⟨slot, slot_eq_ok_iff.mpr hslot, rfl⟩, hplug⟩

theorem mem_edges_iff_shows :
    edge ∈ scene.reads.edges node ↔ edge.parent = node ∧ scene.reads.Shows edge := by
  rw [mem_edges_iff, shows_iff]
  constructor
  · intro h
    obtain ⟨rfl, hslot⟩ := h
    exact ⟨rfl, hslot⟩
  · intro h
    obtain ⟨rfl, hslot⟩ := h
    exact ⟨rfl, hslot⟩

theorem nodup_edges (scene : Scene) (node : NodeId) : (scene.reads.edges node).Nodup := by
  have hattr : ∀ attr, (scene.reads.attributeEdges node attr).Nodup := by
    intro attr
    unfold Reads.attributeEdges
    split
    next value _ => exact nodup_ofValue node attr value
    next => exact List.nodup_nil
  have hname : ∀ {attr edge}, edge ∈ scene.reads.attributeEdges node attr → edge.attr = attr := by
    intro attr edge hedge
    unfold Reads.attributeEdges at hedge
    split at hedge
    next => exact (mem_ofValue_iff.mp hedge).2.1
    next => simp at hedge
  unfold Reads.edges
  split
  next names hnames =>
    obtain ⟨found, _, rfl⟩ := except_map_eq_ok_iff.mp hnames
    refine List.nodup_flatMap.mpr ⟨fun attr _ => hattr attr, found.attributes.nodup.imp ?_⟩
    intro attr other hne edge hedge hother
    exact hne ((hname hedge).symm.trans (hname hother))
  next => exact List.nodup_nil

theorem Acyclic.loopFree (h : scene.Acyclic) (root : NodeId) : LoopFree scene.reads.edges root :=
  fun node _ => h.not_leads_self node

/-- A walk from a node from which no cycle is reached ends, whether it is lazy or by recursion, and
the two walks are the same.  An edge is in them if its parent is reached and shows it, and then once
for each trail to the parent. -/
theorem walker_yields_walk (scene : Scene) (root : NodeId) (h : LoopFree scene.reads.edges root) :
    ∃ walk, (∀ other, Walked scene.reads.edges root other ↔ other = walk) ∧
      (Walker.start scene.reads.edges root).Yields scene.reads.edges walk ∧
      (∀ limit, Walker.take scene.reads.edges limit (.start scene.reads.edges root) =
        walk.take limit) ∧
      (∀ edge, edge ∈ walk ↔
        ReflTransGen (Leads scene.reads.edges) root edge.parent ∧ scene.reads.Shows edge) ∧
      ∀ edge, scene.reads.Shows edge → (walk.count edge : ℕ∞) =
        {trail | Trail scene.reads.edges edge.parent root trail}.encard := by
  obtain ⟨walk, hwalk⟩ := Option.isSome_iff_exists.mp (isSome_walk? h)
  have hwalked : Walked scene.reads.edges root walk := walked_of_walkWithin hwalk
  have hyields := Walker.yields_start hwalked
  refine ⟨walk, fun other => ⟨fun hother => hother.eq hwalked, fun heq => heq ▸ hwalked⟩, hyields,
    hyields.take_eq, fun edge => ?_, fun edge hshows => ?_⟩
  · rw [mem_walkWithin_iff hwalk]
    constructor
    · intro hh
      obtain ⟨node, path, hedge⟩ := hh
      obtain ⟨rfl, hshows⟩ := mem_edges_iff_shows.mp hedge
      exact ⟨path, hshows⟩
    · intro hh
      exact ⟨edge.parent, hh.1, mem_edges_iff_shows.mpr ⟨rfl, hh.2⟩⟩
  · obtain ⟨trails, hnodup, hmem, hcount⟩ := hwalked.exists_trails scene.nodup_edges
      (fun _ _ => parent_of_mem_edges) (mem_edges_iff_shows.mpr ⟨rfl, hshows⟩)
    have hset : {trail | Trail scene.reads.edges edge.parent root trail} =
        (trails.toFinset : Set (List Edge)) := by
      ext trail
      simp [hmem]
    rw [hset, Set.encard_coe_eq_coe_finsetCard, List.toFinset_card_of_nodup hnodup, hcount]

end Scene

/-- The mesh shows the shader in two slots, so the texture of the shader is met twice. -/
def twiceShadedWalk : List Edge :=
  [⟨.ofNat 1, "shaders", .ofNat 2, some 0, none⟩, ⟨.ofNat 2, "color", .ofNat 3, none, none⟩,
    ⟨.ofNat 1, "shaders", .ofNat 2, some 1, some "out"⟩, ⟨.ofNat 2, "color", .ofNat 3, none, none⟩]

theorem twiceShaded_walk :
    LoopFree twiceShaded.scene.reads.edges (.ofNat 1) ∧
      Walked twiceShaded.scene.reads.edges (.ofNat 1) twiceShadedWalk ∧
      (Walker.start twiceShaded.scene.reads.edges (.ofNat 1)).Yields
        twiceShaded.scene.reads.edges twiceShadedWalk ∧
      {trail | Trail twiceShaded.scene.reads.edges (.ofNat 2) (.ofNat 1) trail}.encard = 2 := by
  have hloops := twiceShaded_acyclic.loopFree (.ofNat 1)
  obtain ⟨walk, hwalked, hyields, htake, hmem, hcount⟩ :=
    Scene.walker_yields_walk twiceShaded.scene (.ofNat 1) hloops
  have hfirst : walk.take 5 = twiceShadedWalk := (htake 5).symm.trans (by decide)
  have hlength : walk.length ≤ 5 := by
    have hfour : (walk.take 5).length = 4 := congrArg List.length hfirst
    rw [List.length_take] at hfour
    omega
  rw [List.take_of_length_le hlength] at hfirst
  subst hfirst
  have hshown := ((hmem ⟨.ofNat 2, "color", .ofNat 3, none, none⟩).mp (by decide)).2
  exact ⟨hloops, (hwalked _).mpr rfl, hyields, (hcount _ hshown).symm⟩

end ShaderMigration
