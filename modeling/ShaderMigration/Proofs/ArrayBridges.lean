import ShaderMigration.Proofs.CleanupEdges

namespace ShaderMigration

namespace Scene

variable {scene scene' : Scene} {node : NodeId} {attr : String}

/-- Every plug in a slot, stored at any depth or live, names a node. -/
def PlugsPresent (scene : Scene) : Prop := ∀ a b, scene.Feeds a b → b ∈ scene.nodes.keys

theorem plugsPresent_iff : scene.PlugsPresent ↔ ∀ entry ∈ scene.nodes.entries,
    ∀ slot ∈ entry.2.attributes.entries, ∀ plug ∈ slot.2.plugs, plug.node ∈ scene.nodes.keys := by
  constructor
  · intro h entry he slot hs plug hp
    exact h entry.1 plug.node (feeds_iff.mpr ⟨entry, he, rfl, slot, hs, plug, hp, rfl⟩)
  · intro h a b hf
    obtain ⟨entry, he, _, slot, hs, plug, hp, rfl⟩ := feeds_iff.mp hf
    exact h entry he slot hs plug hp

instance (scene : Scene) : Decidable scene.PlugsPresent := decidable_of_iff _ plugsPresent_iff.symm

theorem PlugsPresent.of_rewrites {offered : List Plug} (h : scene.PlugsPresent)
    (hr : scene.Rewrites scene' node attr offered) : scene'.PlugsPresent := by
  have hgrows := Grows.of_rewrites hr
  intro a b hf
  rcases feeds_of_rewrites hr hf with hf | ⟨_, plug, hp, rfl⟩
  · exact hgrows.mem_keys (h a b hf)
  · exact hgrows.mem_keys (hr.1 plug hp)

theorem checkPlugs_set {items : List Value} {index : Nat} {plug : Plug}
    (hitems : ∀ other ∈ Value.plugsOf items, other.node ∈ scene.nodes.keys)
    (hindex : index < items.length) :
    scene.checkPlugs (.array (items.set index (.connection plug))) =
      scene.checkPlugs (.connection plug) := by
  have hold : ∀ other ∈ Value.plugsOf (items.set index (.connection plug)),
      other.node ∈ scene.nodes.keys ∨ other = plug := by
    intro other hother
    rw [Value.plugsOf_eq_flatMap, List.mem_flatMap] at hother
    obtain ⟨item, hitem, hother⟩ := hother
    rcases List.mem_or_eq_of_mem_set hitem with hitem | rfl
    · refine Or.inl (hitems other ?_)
      rw [Value.plugsOf_eq_flatMap]
      exact List.mem_flatMap.mpr ⟨item, hitem, hother⟩
    · exact Or.inr (by simpa [Value.plugs] using hother)
  have hnew : plug ∈ Value.plugsOf (items.set index (.connection plug)) := by
    rw [Value.plugsOf_eq_flatMap]
    exact List.mem_flatMap.mpr ⟨_, List.mem_set hindex _, by simp [Value.plugs]⟩
  have hmissing : scene.missingPlug? (Value.plugsOf (items.set index (.connection plug))) =
      scene.missingPlug? [plug] := by
    unfold missingPlug?
    cases hfind : (Value.plugsOf (items.set index (.connection plug))).find?
        fun other => !scene.nodes.contains other.node with
    | none =>
      have hthere := List.find?_eq_none.mp hfind plug hnew
      simp_all
    | some other =>
      have hcontains : scene.nodes.contains other.node = false := by
        simpa using List.find?_some hfind
      have hgone : other.node ∉ scene.nodes.keys := by
        rw [← Table.contains_iff, hcontains]
        exact Bool.false_ne_true
      obtain rfl := (hold other (List.mem_of_find?_eq_some hfind)).resolve_left hgone
      simp [hcontains]
  unfold checkPlugs
  simp only [Value.plugs, hmissing]

theorem set_array_eq_setIndexed (h : scene.PlugsPresent) {items : List Value} {index : Nat}
    {plug : Plug} (hslot : scene.slot? node attr = some ⟨.array items, none⟩)
    (hindex : index < items.length) :
    scene.set node attr (.array (items.set index (.connection plug))) =
      scene.setIndexed node attr index (.connection plug) := by
  have hitems : ∀ other ∈ Value.plugsOf items, other.node ∈ scene.nodes.keys := by
    intro other hother
    refine h node other.node ⟨attr, _, hslot, other, ?_, rfl⟩
    exact List.mem_append_left _ (by rwa [Value.plugs])
  have hset : scene.set node attr (.array (items.set index (.connection plug))) = (do
      scene.checkPlugs (.array (items.set index (.connection plug)))
      let slot ← scene.slotForWriting node attr
      let fitted ← (fit slot.value (.array (items.set index (.connection plug)))).mapError
        (.rejected node attr)
      return scene.putSlot node attr ⟨fitted, none⟩) := rfl
  rw [hset, checkPlugs_set hitems hindex, setIndexed, slotForWriting_eq_ok_iff.mpr hslot]
  cases scene.checkPlugs (.connection plug) with
  | error cause => rfl
  | ok _ => simp [fit, hindex, bind, Except.bind, Except.mapError, pure, Except.pure]

end Scene

namespace LiveScene

/-- The scene in memory, with its array slots written by copying the array: this checks all items, and
cuts what drives the array. -/
def hostByCopy : Host LiveScene := { host with setIndexed := host.setIndexedByCopy }

/-- A host that stands for the scene in memory as far as a cleanup goes: it is walked like it and
connects like it, and it writes slots that show plugs like it. -/
structure StandsIn (other : Host LiveScene) : Prop where
  roots : ∀ live, (other.reads live).roots = live.scene.roots
  consumers? : ∀ live, (other.reads live).consumers? = live.scene.reads.consumers?
  connect : other.connect = host.connect
  setIndexed : ∀ {live node attr index items plug}, live.scene.PlugsPresent →
    live.scene.slot? node attr = some ⟨.array items, none⟩ → index < items.length →
      other.setIndexed node attr index (.connection plug) live =
        host.setIndexed node attr index (.connection plug) live
  refused : ∀ {node attr index value live cause},
    (other.setIndexed node attr index value live).1 = .error cause →
      (other.setIndexed node attr index value live).2 = live

theorem setIndexedByCopy_eq (other : Host LiveScene) (hset : other.set = host.set)
    {live : LiveScene} {node : NodeId} {attr : String} {index : Nat} {items : List Value}
    {plug : Plug} (hstatic : (other.reads live).getStatic node attr = .ok (.array items))
    (hplugs : live.scene.PlugsPresent)
    (hslot : live.scene.slot? node attr = some ⟨.array items, none⟩)
    (hindex : index < items.length) :
    other.setIndexedByCopy node attr index (.connection plug) live =
      host.setIndexed node attr index (.connection plug) live := by
  have hedit : host.set node attr (.array (items.set index (.connection plug))) live =
      host.setIndexed node attr index (.connection plug) live := by
    change edit () (fun scene => scene.set node attr _) live =
      edit () (fun scene => scene.setIndexed node attr index _) live
    simp only [edit, Scene.set_array_eq_setIndexed hplugs hslot hindex]
  unfold Host.setIndexedByCopy
  simp only [hstatic, if_pos hindex, hset]
  exact hedit

theorem setIndexedByCopy_error (other : Host LiveScene) (hset : other.set = host.set)
    {live : LiveScene} {node : NodeId} {attr : String} {index : Nat} {value : Value}
    {cause : HostError}
    (h : (other.setIndexedByCopy node attr index value live).1 = .error cause) :
    (other.setIndexedByCopy node attr index value live).2 = live := by
  unfold Host.setIndexedByCopy at h ⊢
  split
  next => rfl
  next items hstatic =>
    simp only [hstatic] at h
    split
    next hindex =>
      rw [if_pos hindex, hset] at h
      rw [hset]
      exact edit_error h
    next => rfl
  next => rfl

theorem standsIn_hostByCopy : StandsIn hostByCopy where
  roots := fun _ => rfl
  consumers? := fun _ => rfl
  connect := rfl
  setIndexed := by
    intro live node attr index items plug hplugs hslot hindex
    have hstatic : (host.reads live).getStatic node attr = .ok (.array items) := by
      change (live.scene.slot node attr).map Slot.value = _
      rw [Scene.slot_eq_ok_iff.mpr hslot]
      rfl
    exact setIndexedByCopy_eq host rfl hstatic hplugs hslot hindex
  refused := fun h => setIndexedByCopy_error host rfl h

/-- What is stored in an array that nothing drives is what it shows. -/
theorem standsIn_basic : StandsIn host.basic where
  roots := fun _ => rfl
  consumers? := fun _ => rfl
  connect := rfl
  setIndexed := by
    intro live node attr index items plug hplugs hslot hindex
    have hstatic : (host.reads live).get node attr = .ok (.array items) := by
      change (live.scene.slot node attr).map Slot.live = _
      rw [Scene.slot_eq_ok_iff.mpr hslot]
      rfl
    exact setIndexedByCopy_eq host.basic rfl hstatic hplugs hslot hindex
  refused := fun h => setIndexedByCopy_error host.basic rfl h

end LiveScene

namespace Cleanup

open LiveScene (StandsIn)

variable {M : Type} [Memory M] {other : Host LiveScene}

theorem repoint_standsIn (h : StandsIn other) {live : LiveScene} (hplugs : live.scene.PlugsPresent)
    {consumer : Consumer} (hshown : Shown live.scene consumer) (new : NodeId) :
    repoint other consumer new live = repoint LiveScene.host consumer new live := by
  obtain ⟨edge, hedge, rfl⟩ := hshown
  obtain ⟨_, slot, hslot, hplug⟩ := Scene.mem_edges_iff.mp hedge
  obtain ⟨parent, attr, child, index, channel⟩ := edge
  unfold repoint
  cases index with
  | none => exact congrFun (congrFun (congrFun (congrFun h.connect _) _) _) live
  | some index =>
    obtain ⟨items, hlive, hindex, _⟩ := Value.eq_of_plugAt?_some hplug
    obtain rfl := Slot.eq_of_live_array hlive
    exact h.setIndexed hplugs hslot hindex

theorem repoint_refused (h : StandsIn other) {consumer : Consumer} {new : NodeId}
    {live : LiveScene} {cause : HostError}
    (herror : (repoint other consumer new live).1 = .error cause) :
    (repoint other consumer new live).2 = live := by
  unfold repoint at herror ⊢
  cases hindex : consumer.index with
  | none =>
    simp only [hindex, h.connect] at herror ⊢
    exact LiveScene.edit_error herror
  | some index =>
    simp only [hindex] at herror ⊢
    exact h.refused herror

theorem plugsPresent_repoint {live : LiveScene} (h : live.scene.PlugsPresent)
    (consumer : Consumer) (new : NodeId) :
    (repoint LiveScene.host consumer new live).2.scene.PlugsPresent := by
  rcases repoint_cases consumer new live with ⟨scene, heq, hr⟩ | ⟨cause, heq⟩
  · rw [heq]
    exact h.of_rewrites hr
  · rwa [heq]

theorem state_repointConsumer (host : Host LiveScene) (pair : Replacement)
    (p : Progress LiveScene M) (consumer : Consumer) :
    (repointConsumer host pair p consumer).state = (repoint host consumer pair.new p.state).2 := by
  unfold repointConsumer
  split
  next heq => rw [heq]
  next heq => rw [heq]

/-- The consumers found together stay slots that show plugs until their turn comes, so each is
repointed alike. -/
theorem foldl_standsIn (h : StandsIn other) {pair : Replacement} {consumers : List Consumer}
    {p : Progress LiveScene M} (hplugs : p.state.scene.PlugsPresent)
    (hc : ∀ consumer ∈ consumers, Shown p.state.scene consumer ∧ consumer.parent ≠ pair.new) :
    consumers.foldl (repointConsumer other pair) p =
        consumers.foldl (repointConsumer LiveScene.host pair) p ∧
      (consumers.foldl (repointConsumer LiveScene.host pair) p).state.scene.PlugsPresent := by
  induction consumers generalizing p with
  | nil => exact ⟨rfl, hplugs⟩
  | cons consumer rest ih =>
    obtain ⟨hshown, hapart⟩ := hc consumer (by simp)
    have hfirst : repointConsumer other pair p consumer =
        repointConsumer LiveScene.host pair p consumer := by
      unfold repointConsumer
      rw [repoint_standsIn h hplugs hshown]
    have hstate := state_repointConsumer LiveScene.host pair p consumer
    rw [List.foldl_cons, List.foldl_cons, hfirst]
    refine ih ?_ fun later hlater => ?_
    · rw [hstate]
      exact plugsPresent_repoint hplugs consumer pair.new
    · obtain ⟨hshown', hapart'⟩ := hc later (by simp [hlater])
      rw [hstate]
      exact ⟨shown_repoint hshown hapart hshown', hapart'⟩

theorem repointPair?_standsIn (h : StandsIn other) (olds : List NodeId)
    {p : Progress LiveScene M} (hplain : p.resolver.memo = none)
    (hplugs : p.state.scene.PlugsPresent) (pair : Replacement) :
    repointPair? other olds p pair = repointPair? LiveScene.host olds p pair ∧
      ∀ later ∈ repointPair? LiveScene.host olds p pair,
        later.resolver = p.resolver ∧ later.state.scene.PlugsPresent := by
  have hreads : (LiveScene.host.reads p.state).consumers? = p.state.scene.reads.consumers? := rfl
  rw [repointPair?_of_memo_none olds hplain, repointPair?_of_memo_none olds hplain, h.consumers?,
    hreads]
  cases hfound : p.state.scene.reads.consumers? p.resolver.roots pair.old with
  | none => simp
  | some found =>
    have hkept : ∀ consumer ∈ kept olds pair found,
        Shown p.state.scene consumer ∧ consumer.parent ≠ pair.new := by
      intro consumer hc
      obtain ⟨hmem, _, hapart⟩ := mem_kept_iff.mp hc
      exact ⟨shown_of_mem_consumers? hfound hmem, hapart⟩
    obtain ⟨hsame, hlater⟩ := foldl_standsIn h hplugs hkept
    refine ⟨congrArg some hsame, ?_⟩
    intro later hh
    obtain rfl := Option.some.inj hh
    exact ⟨resolver_foldl LiveScene.host pair _ hplain, hlater⟩

theorem foldlM_standsIn (h : StandsIn other) (olds : List NodeId) (pairs : List Replacement)
    {p : Progress LiveScene M} (hplain : p.resolver.memo = none)
    (hplugs : p.state.scene.PlugsPresent) :
    pairs.foldlM (repointPair? other olds) p = pairs.foldlM (repointPair? LiveScene.host olds) p := by
  induction pairs generalizing p with
  | nil => rw [List.foldlM_nil, List.foldlM_nil]
  | cons pair rest ih =>
    obtain ⟨hsame, hlater⟩ := repointPair?_standsIn h olds hplain hplugs pair
    rw [List.foldlM_cons, List.foldlM_cons, hsame]
    cases hstep : repointPair? LiveScene.host olds p pair with
    | none => simp only [Option.bind_eq_bind, Option.bind_none]
    | some later =>
      obtain ⟨hresolver, hplugs'⟩ := hlater later hstep
      exact ih (hresolver ▸ hplain) hplugs'

theorem cleanUp?_standsIn [LawfulMemory M] (h : StandsIn other) {live : LiveScene}
    (hplugs : live.scene.PlugsPresent) (options : Options) (pairs : List Replacement) :
    cleanUp? (M := M) other options pairs live =
      cleanUp? (M := M) LiveScene.host options pairs live := by
  have hroots : (other.reads live).roots = (LiveScene.host.reads live).roots := h.roots live
  have hstart : (initial other ⟨0, options.replacementsAsRoots⟩ pairs live :
      Progress LiveScene M) = initial LiveScene.host ⟨0, options.replacementsAsRoots⟩ pairs live := by
    unfold initial
    rw [hroots]
  obtain ⟨capacity, fromReplacements⟩ := options
  rw [cleanUp?_capacity (fun _ _ _ _ => repoint_refused h),
    cleanUp?_capacity (fun _ _ _ _ => repoint_error), cleanUp?_eq, cleanUp?_eq, hstart,
    foldlM_standsIn h _ _ (memo_initial fromReplacements pairs live) hplugs]

variable (M) in
/-- The scene, as a cleanup finds it when it turns to one of the pairs. -/
def TurnsIn {σ : Type} (host : Host σ) (options : Options) (pairs : List Replacement)
    (state later : σ) : Prop :=
  ∃ done pair rest, replaced pairs = done ++ pair :: rest ∧ ∃ p : Progress σ M,
    done.foldlM (repointPair? host ((replaced pairs).map Replacement.old))
      (initial host options pairs state) = some p ∧ p.state = later

theorem turnsIn_of_plain [LawfulMemory M] {options : Options} {pairs done rest : List Replacement}
    {pair : Replacement} {live : LiveScene} {p : Progress LiveScene M}
    (hsplit : replaced pairs = done ++ pair :: rest)
    (hfold : done.foldlM (repointPair? LiveScene.host ((replaced pairs).map Replacement.old))
      (initial LiveScene.host ⟨0, options.replacementsAsRoots⟩ pairs live) = some p) :
    TurnsIn M LiveScene.host options pairs live p.state := by
  have hfaithful : (initial LiveScene.host options pairs live : Progress LiveScene M).Faithful
      LiveScene.host := Resolver.faithful_ofRoots _ _ _ _
  have hstart : (initial LiveScene.host options pairs live : Progress LiveScene M).plain =
      initial LiveScene.host ⟨0, options.replacementsAsRoots⟩ pairs live := by
    simp only [Progress.plain, initial, resolver, Resolver.plain_ofRoots]
  rw [← hstart, ← foldlM_plain (fun _ _ _ _ => repoint_error) _ _ hfaithful] at hfold
  obtain ⟨q, hq, rfl⟩ := Option.map_eq_some_iff.mp hfold
  exact ⟨done, pair, rest, hsplit, q, hq, rfl⟩

/-- A cleanup ends when no scene that it turns to a pair in has a cycle within its reach. -/
theorem isSome_cleanUp? [LawfulMemory M] {options : Options} {pairs : List Replacement}
    {live : LiveScene}
    (hloopless : ∀ later, TurnsIn M LiveScene.host options pairs live later → ∀ node,
      later.scene.reads.Reached (live.scene.roots ++ (replaced pairs).map Replacement.new) node →
        ¬ Relation.TransGen (Leads later.scene.reads.edges) node node) :
    (cleanUp? (M := M) LiveScene.host options pairs live).isSome := by
  let start : Progress LiveScene M :=
    initial LiveScene.host ⟨0, options.replacementsAsRoots⟩ pairs live
  have hplain : start.resolver.memo = none := memo_initial _ pairs live
  have hroots : ∀ root ∈ start.resolver.roots,
      root ∈ live.scene.roots ++ (replaced pairs).map Replacement.new := by
    intro root hroot
    rcases Resolver.mem_roots_ofRoots_iff.mp hroot with hroot | hroot
    · exact List.mem_append_left _ hroot
    · refine List.mem_append_right _ ?_
      split at hroot
      next => exact hroot
      next => cases hroot
  -- on the pairs to come, since those that were done have led to where the next one has its turn
  have hrun : ∀ rest done (p : Progress LiveScene M), replaced pairs = done ++ rest →
      done.foldlM (repointPair? LiveScene.host ((replaced pairs).map Replacement.old)) start =
        some p → p.resolver = start.resolver →
      (rest.foldlM (repointPair? LiveScene.host ((replaced pairs).map Replacement.old)) p).isSome := by
    intro rest
    induction rest with
    | nil => exact fun done p hsplit hfold hresolver => rfl
    | cons pair rest ih =>
      intro done p hsplit hfold hresolver
      have hturn := turnsIn_of_plain hsplit hfold
      have hfound : (p.state.scene.reads.consumers? p.resolver.roots pair.old).isSome := by
        refine Reads.isSome_consumers? fun root hroot => Scene.isSome_walk? fun node path => ?_
        rw [hresolver] at hroot
        exact hloopless _ hturn node ⟨root, hroots root hroot, path⟩
      obtain ⟨found, hfound⟩ := Option.isSome_iff_exists.mp hfound
      have hstep : repointPair? LiveScene.host ((replaced pairs).map Replacement.old) p pair =
          some ((kept ((replaced pairs).map Replacement.old) pair found).foldl
            (repointConsumer LiveScene.host pair) p) := by
        rw [repointPair?_of_memo_none _ (hresolver ▸ hplain)]
        exact congrArg _ hfound
      rw [List.foldlM_cons, hstep]
      refine ih (done ++ [pair]) _ (by simp [hsplit]) ?_ ?_
      · rw [List.foldlM_append, hfold]
        simpa using hstep
      · rw [resolver_foldl _ _ _ (hresolver ▸ hplain), hresolver]
  obtain ⟨capacity, fromReplacements⟩ := options
  rw [cleanUp?_capacity (fun _ _ _ _ => repoint_error), cleanUp?_eq, Option.isSome_map]
  exact hrun _ [] start rfl rfl rfl

end Cleanup

/-- Whether array slots are written in place or by copying, and whether stored values are read apart
from live ones or not, a cleanup ends with the same report and the same scene. -/
theorem cleanUp?_bridges_agree {M : Type} [Memory M] [LawfulMemory M] {live : LiveScene}
    (options : Cleanup.Options) (pairs : List Replacement) (hplugs : live.scene.PlugsPresent)
    (hloopless : ∀ later, Cleanup.TurnsIn M LiveScene.host options pairs live later → ∀ node,
      later.scene.reads.Reached
          (live.scene.roots ++ (Cleanup.replaced pairs).map Replacement.new) node →
        ¬ Relation.TransGen (Leads later.scene.reads.edges) node node) :
    ∃ report after,
      cleanUp? (M := M) LiveScene.host options pairs live = some (report, after) ∧
      cleanUp? (M := M) LiveScene.hostByCopy options pairs live = some (report, after) ∧
      cleanUp? (M := M) LiveScene.host.basic options pairs live = some (report, after) := by
  obtain ⟨⟨report, after⟩, hclean⟩ :=
    Option.isSome_iff_exists.mp (Cleanup.isSome_cleanUp? hloopless)
  refine ⟨report, after, hclean, ?_, ?_⟩
  · rw [Cleanup.cleanUp?_standsIn LiveScene.standsIn_hostByCopy hplugs, hclean]
  · rw [Cleanup.cleanUp?_standsIn LiveScene.standsIn_basic hplugs, hclean]

/-- A replacement that is missing is refused in both slots of the array by all three hosts, and the
next pair then repoints both. -/
theorem twiceShaded_bridges_agree :
    ∃ report after,
      cleanUp? LiveScene.host ⟨1, true⟩ [⟨.ofNat 2, .ofNat 9⟩, ⟨.ofNat 2, .ofNat 3⟩] twiceShaded =
        some (report, after) ∧
      cleanUp? LiveScene.hostByCopy ⟨1, true⟩ [⟨.ofNat 2, .ofNat 9⟩, ⟨.ofNat 2, .ofNat 3⟩]
        twiceShaded = some (report, after) ∧
      cleanUp? LiveScene.host.basic ⟨1, true⟩ [⟨.ofNat 2, .ofNat 9⟩, ⟨.ofNat 2, .ofNat 3⟩]
        twiceShaded = some (report, after) ∧
      report.failures.map RewireFailure.cause = [.noSuchNode (.ofNat 9), .noSuchNode (.ofNat 9)] ∧
      report.rewired.length = 2 := by
  have hturns : ∀ later, Cleanup.TurnsIn Memo LiveScene.host ⟨1, true⟩
      [⟨.ofNat 2, .ofNat 9⟩, ⟨.ofNat 2, .ofNat 3⟩] twiceShaded later →
        later.scene = twiceShaded.scene := by
    intro later hturn
    obtain ⟨done, pair, rest, hsplit, p, hfold, rfl⟩ := hturn
    have hrefused : (([⟨.ofNat 2, .ofNat 9⟩] : List Replacement).foldlM
        (Cleanup.repointPair? LiveScene.host ((Cleanup.replaced
          [⟨.ofNat 2, .ofNat 9⟩, ⟨.ofNat 2, .ofNat 3⟩]).map Replacement.old))
        (Cleanup.initial LiveScene.host ⟨1, true⟩ [⟨.ofNat 2, .ofNat 9⟩, ⟨.ofNat 2, .ofNat 3⟩]
          twiceShaded : Cleanup.Progress LiveScene Memo)).map (fun q => q.state.scene) =
        some twiceShaded.scene := by decide +kernel
    rcases done with _ | ⟨first, _ | ⟨second, later⟩⟩
    · cases hfold
      rfl
    · obtain ⟨rfl, _⟩ := List.cons.inj hsplit
      have hsame := congrArg (Option.map fun q => q.state.scene) hfold
      exact (Option.some.inj (hrefused.symm.trans hsame)).symm
    · have hlength := congrArg List.length hsplit
      simp only [Cleanup.replaced, List.length_append, List.length_cons] at hlength
      have hle := List.length_filter_le (fun pair : Replacement => pair.old != pair.new)
        [⟨.ofNat 2, .ofNat 9⟩, ⟨.ofNat 2, .ofNat 3⟩]
      simp only [List.length_cons, List.length_nil] at hle
      omega
  have hplugs : twiceShaded.scene.PlugsPresent := by decide +kernel
  obtain ⟨report, after, hclean, hcopy, hbasic⟩ := cleanUp?_bridges_agree (M := Memo) ⟨1, true⟩
    [⟨.ofNat 2, .ofNat 9⟩, ⟨.ofNat 2, .ofNat 3⟩] hplugs fun later hturn node _ =>
      hturns later hturn ▸ twiceShaded_acyclic.not_leads_self node
  have hreport : (cleanUp? (M := Memo) LiveScene.host ⟨1, true⟩
      [⟨.ofNat 2, .ofNat 9⟩, ⟨.ofNat 2, .ofNat 3⟩] twiceShaded).map (fun result =>
        (result.1.failures.map RewireFailure.cause, result.1.rewired.length)) =
        some ([.noSuchNode (.ofNat 9), .noSuchNode (.ofNat 9)], 2) := by decide +kernel
  rw [hclean] at hreport
  obtain ⟨hfailures, hrewired⟩ := Prod.mk.inj (Option.some.inj hreport)
  exact ⟨report, after, hclean, hcopy, hbasic, hfailures, hrewired⟩

end ShaderMigration
