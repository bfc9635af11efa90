import ShaderMigration.Proofs.MappingTargets
import ShaderMigration.Proofs.RefusedWrites

namespace ShaderMigration

/-- The same failure, but for the length of the array that the target holds. -/
inductive MappingFailure.Retells (before after : Scene) : MappingFailure → MappingFailure → Prop
  | same (failure : MappingFailure) : Retells before after failure failure
  | array (old new : NodeId) (source target found : String) {items items' : List Value}
      (h : before.ArraysAt after new target items items') :
      Retells before after
        ⟨old, new, source, target,
          .host (.rejected new target (.shape found (Value.array items).describe))⟩
        ⟨old, new, source, target,
          .host (.rejected new target (.shape found (Value.array items').describe))⟩

namespace Mapping

variable {start scene before after first second : Scene} {old new node : NodeId}

/-- Tries pairs in turn; every source is read in one and the same state. -/
def tryFrom {σ : Type} (host : Host σ) (old new : NodeId) (reads : Reads) :
    List Pairing → StateM σ (List Attempt)
  | [] => pure []
  | pairing :: rest => fun state =>
    let (result, state) := write host old new (reading reads old pairing.source) pairing state
    let (others, state) := tryFrom host old new reads rest state
    (⟨pairing, result⟩ :: others, state)

section TryFrom

variable {σ : Type} (host : Host σ) (old new : NodeId) (reads : Reads)

theorem tryFrom_cons (pairing : Pairing) (rest : List Pairing) (state : σ) :
    tryFrom host old new reads (pairing :: rest) state =
      let first := write host old new (reading reads old pairing.source) pairing state
      let others := tryFrom host old new reads rest first.2
      (⟨pairing, first.1⟩ :: others.1, others.2) := rfl

theorem tryFrom_append (first rest : List Pairing) (state : σ) :
    tryFrom host old new reads (first ++ rest) state =
      let run := tryFrom host old new reads first state
      let others := tryFrom host old new reads rest run.2
      (run.1 ++ others.1, others.2) := by
  induction first generalizing state with
  | nil => rfl
  | cons pairing first ih =>
    simp only [List.cons_append, tryFrom_cons, ih]

theorem tryPairings_eq_tryFrom {source : String} {pairings : List Pairing}
    (hsource : ∀ pairing ∈ pairings, pairing.source = source) (state : σ) :
    tryPairings host old new (reading reads old source) pairings state =
      tryFrom host old new reads pairings state := by
  induction pairings generalizing state with
  | nil => rfl
  | cons pairing rest ih =>
    rw [List.forall_mem_cons] at hsource
    rw [tryPairings_cons, tryFrom_cons, hsource.1]
    simp only [ih hsource.2]

end TryFrom

/-- Pairs that read no more than their sources write what they offer, if it is accepted. -/
theorem scene_tryFrom {pairings : List Pairing} (harity : ∀ pairing ∈ pairings, pairing.arity ≤ 1)
    (live : LiveScene) :
    (tryFrom LiveScene.host old new start.reads pairings live).2 =
      { live with scene := written start old new pairings live.scene } := by
  induction pairings generalizing live with
  | nil => rfl
  | cons pairing rest ih =>
    rw [List.forall_mem_cons] at harity
    obtain ⟨result, hwrite, _⟩ := write_takes start old new harity.1 live
    rw [tryFrom_cons, hwrite]
    exact ih harity.2 _

/-- The same attempt, but for the length of the array that the target holds. -/
inductive Attempt.Retells (before after : Scene) (new : NodeId) : Attempt → Attempt → Prop
  | same (attempt : Attempt) : Retells before after new attempt attempt
  | array (pairing : Pairing) (found : String) {items items' : List Value}
      (h : before.ArraysAt after new pairing.target items items') :
      Retells before after new
        ⟨pairing, .error (.host
          (.rejected new pairing.target (.shape found (Value.array items).describe)))⟩
        ⟨pairing, .error (.host
          (.rejected new pairing.target (.shape found (Value.array items').describe)))⟩

section Runs

variable (start old new)

/-- A pair that is tried in both runs. -/
theorem write_retells {pairing : Pairing} (harity : pairing.arity ≤ 1) {live live' : LiveScene}
    (h : before.Replays after live.scene live'.scene) :
    let first := write LiveScene.host old new (reading start.reads old pairing.source) pairing live
    let second := write LiveScene.host old new (reading start.reads old pairing.source) pairing live'
    Attempt.Retells before after new ⟨pairing, first.1⟩ ⟨pairing, second.1⟩ ∧
      before.Replays after first.2.scene second.2.scene := by
  obtain ⟨hsome, hnone⟩ := write_eq start old new harity
  cases hoffered : pairing.offered? (start.slot? old pairing.source) with
  | none =>
    obtain ⟨cause, hwrite⟩ := hnone hoffered
    rw [hwrite live, hwrite live']
    exact ⟨.same _, h⟩
  | some value =>
    rw [hsome value hoffered live, hsome value hoffered live']
    have hedit : ∀ live : LiveScene, LiveScene.host.set new pairing.target value live =
        LiveScene.edit () (Scene.set · new pairing.target value) live := fun _ => rfl
    rw [hedit, hedit]
    unfold LiveScene.edit
    rcases h.set new pairing.target value with
      ⟨later, later', hfirst, hsecond, hlater⟩ | ⟨e, e', hfirst, hsecond, hretells⟩
    · simp only [hfirst, hsecond]
      exact ⟨.same _, hlater⟩
    · simp only [hfirst, hsecond]
      refine ⟨?_, h⟩
      cases hretells with
      | same e => exact .same _
      | array found harrays => exact .array pairing found harrays

/-- Pairs that are tried in both runs come to the same. -/
theorem tryFrom_retells {pairings : List Pairing} (harity : ∀ pairing ∈ pairings, pairing.arity ≤ 1)
    {live live' : LiveScene} (h : before.Replays after live.scene live'.scene) :
    List.Forall₂ (Attempt.Retells before after new)
      (tryFrom LiveScene.host old new start.reads pairings live).1
      (tryFrom LiveScene.host old new start.reads pairings live').1 := by
  induction pairings generalizing live live' with
  | nil => exact .nil
  | cons pairing rest ih =>
    rw [List.forall_mem_cons] at harity
    obtain ⟨hattempt, hlater⟩ := write_retells start old new harity.1 h
    rw [tryFrom_cons, tryFrom_cons]
    exact .cons hattempt (ih harity.2 hlater)

end Runs

theorem Attempt.Retells.eq {attempt attempt' : Attempt}
    (h : Attempt.Retells before after new attempt attempt')
    (hlength : ∀ attr items items', before.ArraysAt after new attr items items' →
      items'.length = items.length) : attempt' = attempt := by
  cases h with
  | same => rfl
  | array pairing found harrays =>
    rw [Value.describe_array, Value.describe_array, hlength _ _ _ harrays]

theorem tally_retells (old : NodeId) {attempts attempts' : List Attempt}
    (h : List.Forall₂ (Attempt.Retells before after new) attempts attempts') :
    (tally old new attempts').writes = (tally old new attempts).writes ∧
      List.Forall₂ (MappingFailure.Retells before after) (tally old new attempts).failures
        (tally old new attempts').failures := by
  induction h with
  | nil => exact ⟨rfl, .nil⟩
  | @cons attempt attempt' rest rest' hattempt _ ih =>
    obtain ⟨hwrites, hfailures⟩ := ih
    rw [tally_cons, tally_cons]
    cases hattempt with
    | same =>
      refine ⟨congrArg (_ + ·) hwrites, List.rel_append ?_ hfailures⟩
      exact List.forall₂_same.mpr fun failure _ => .same failure
    | array pairing found harrays =>
      exact ⟨congrArg (_ + ·) hwrites, .cons (.array old new pairing.source _ found harrays) hfailures⟩

/-- Where no target is a source, all sources are read as they were at the start. -/
theorem tryRules_eq_tryFrom {names : List String} {rules : List (String × AttributeRule)}
    (hsources : ∀ entry ∈ rules, entry.1 ∈ names)
    (htargets : ∀ pairing ∈ pairingsOf rules, pairing.target ∉ names) (live : LiveScene)
    (hkept : ∀ name ∈ names, live.scene.slot? node name = start.slot? node name) :
    tryRules LiveScene.host node node rules live =
      tryFrom LiveScene.host node node start.reads (pairingsOf rules) live := by
  induction rules generalizing live with
  | nil => rfl
  | cons entry rest ih =>
    rw [List.forall_mem_cons] at hsources
    rw [pairingsOf_cons, List.forall_mem_append] at htargets
    have hread : reading (LiveScene.host.reads live) node entry.1 =
        reading start.reads node entry.1 := reading_congr (hkept entry.1 hsources.1)
    have hblock : tryPairings LiveScene.host node node (reading start.reads node entry.1)
        (entry.2.pairings entry.1) live =
          tryFrom LiveScene.host node node start.reads (entry.2.pairings entry.1) live :=
      tryPairings_eq_tryFrom LiveScene.host node node start.reads
        (fun pairing h => source_of_mem_pairings h) live
    obtain ⟨scene, hstate, hspares⟩ : live.WritesBeside node names
        (tryPairings LiveScene.host node node (reading start.reads node entry.1)
          (entry.2.pairings entry.1) live).2 := writesBeside_tryPairings node node htargets.1 live
    rw [tryRules_cons, pairingsOf_cons, tryFrom_append, hread, ← hblock]
    simp only [hstate]
    rw [ih hsources.2 htargets.2 { live with scene } fun name hname =>
      (hspares.slots name hname).trans (hkept name hname)]

theorem stored?_written {pairings : List Pairing} {attr : String} {plug : Plug} {other : NodeId}
    (h : scene.stored? other attr = some (.connection plug)) :
    (written start old new pairings scene).stored? other attr = some (.connection plug) := by
  induction pairings generalizing scene with
  | nil => exact h
  | cons pairing rest ih =>
    have hfirst : ((takes? start scene old new pairing).getD scene).stored? other attr =
        some (.connection plug) := by
      cases htakes : takes? start scene old new pairing with
      | none => exact h
      | some later =>
        obtain ⟨value, _, hset⟩ := takes?_eq_some_iff.mp htakes
        exact Scene.stored?_of_set_connection hset h
    exact ih hfirst

end Mapping

/-- Mapping a node onto itself by a rule none of whose targets is a source of it, and that computes
from its sources alone, may be repeated: the scene stays, as many targets are written, and the same
pairs fail for the same reasons.  Only where an array refuses a value, the failure names the length of
the array, which the first run may have changed. -/
theorem mapAttributes_twice {rule : Rule LiveScene} {node : NodeId} {live after : LiveScene}
    {outcome : Mapping.Outcome} (harity : ∀ pairing ∈ rule.pairings, pairing.arity ≤ 1)
    (hapart : ∀ pairing ∈ rule.pairings, pairing.target ∉ rule.attributes.keys)
    (hrun : Mapping.mapAttributes LiveScene.host rule node node live = (outcome, after)) :
    ∃ again, Mapping.mapAttributes LiveScene.host rule node node after = (again, after) ∧
      again.writes = outcome.writes ∧
      List.Forall₂ (MappingFailure.Retells live.scene after.scene) outcome.failures again.failures ∧
      ((∀ attr items items', live.scene.ArraysAt after.scene node attr items items' →
        items'.length = items.length) → again = outcome) := by
  have hsources : ∀ entry ∈ rule.attributes.entries, entry.1 ∈ rule.attributes.keys :=
    fun entry hentry => List.mem_map_of_mem hentry
  -- both runs try the same pairs with the same readings
  have hfirst : Mapping.attempts LiveScene.host rule node node live =
      Mapping.tryFrom LiveScene.host node node live.scene.reads rule.pairings live :=
    Mapping.tryRules_eq_tryFrom hsources hapart live fun _ _ => rfl
  rw [Mapping.mapAttributes_eq_tally, hfirst, Prod.mk.injEq] at hrun
  obtain ⟨houtcome, hafter⟩ := hrun
  have hscene : after.scene =
      Mapping.written live.scene node node rule.pairings live.scene := by
    rw [← hafter, Mapping.scene_tryFrom harity]
  have hspared : ∀ name ∈ rule.attributes.keys,
      after.scene.slot? node name = live.scene.slot? node name := by
    obtain ⟨scene, hstate, hspares⟩ := Mapping.writesBeside_tryRules node node hapart live
    change (Mapping.attempts LiveScene.host rule node node live).2 = _ at hstate
    rw [hfirst, hafter] at hstate
    rw [hstate]
    exact hspares.slots
  have hsecond : Mapping.attempts LiveScene.host rule node node after =
      Mapping.tryFrom LiveScene.host node node live.scene.reads rule.pairings after :=
    Mapping.tryRules_eq_tryFrom hsources hapart after hspared
  have hstate : (Mapping.attempts LiveScene.host rule node node after).2 = after := by
    rw [hsecond, Mapping.scene_tryFrom harity, hscene, Mapping.written_written _ (.refl _), ← hscene]
  have hshapes : live.scene.SameShapes after.scene := by
    rw [hscene]
    exact Mapping.sameShapes_written _
  have hreplays : live.scene.Replays after.scene live.scene after.scene :=
    .of_start hshapes fun other attr plug hstored => by
      rw [hscene]
      exact Mapping.stored?_written hstored
  have hattempts := Mapping.tryFrom_retells live.scene node node harity hreplays
  rw [← hsecond] at hattempts
  obtain ⟨hwrites, hfailures⟩ := Mapping.tally_retells node hattempts
  rw [houtcome] at hwrites hfailures
  refine ⟨Mapping.tally node node (Mapping.attempts LiveScene.host rule node node after).1, ?_,
    hwrites, hfailures, fun hlength => ?_⟩
  · rw [Mapping.mapAttributes_eq_tally, hstate]
  · have hequal := hattempts.imp fun attempt attempt' h => (h.eq hlength).symm
    rw [List.forall₂_eq_eq_eq] at hequal
    rw [← hequal, houtcome]

/-- A light with a list of three groups. -/
def groupedLight : LiveScene where
  scene :=
    { schemas := {}
      nodes := .ofPairs
        [(.ofNat 1, ⟨.ofNat 1, "light", none, "key", .ofPairs
          [("exposure", ⟨.float 1.5, none⟩), ("extra", ⟨.array [.int 7, .int 8], none⟩),
            ("samples", ⟨.int 4, some ⟨.ofNat 2, none⟩⟩),
            ("groups", ⟨.array [.int 1, .int 2, .int 3], none⟩)], .empty⟩),
          (.ofNat 2, ⟨.ofNat 2, "file", none, "map", {}, .empty⟩)]
      roots := [] }
  supply := ⟨fun n => .ofNat (n + 3), 0⟩

/-- The exposure does not fit the groups; what is extra does, and has fewer items. -/
def regrouping : Rule LiveScene :=
  ((Rule.onto.rename "exposure" "groups").rename "extra" "groups").computed "intensity" "samples"
    (.constant (.float 2.0))

def regrouped : Mapping.Outcome × LiveScene :=
  Mapping.mapAttributes LiveScene.host regrouping (.ofNat 1) (.ofNat 1) groupedLight

/-- The second run leaves the shorter list and the number of samples. -/
theorem regrouped_twice : regrouped.2.scene.slot? (.ofNat 1) "samples" = some ⟨.int 2, none⟩ ∧
    ∃ again, Mapping.mapAttributes LiveScene.host regrouping (.ofNat 1) (.ofNat 1) regrouped.2 =
      (again, regrouped.2) ∧ again.writes = 2 := by
  have hrun : Mapping.mapAttributes LiveScene.host regrouping (.ofNat 1) (.ofNat 1) groupedLight =
      (regrouped.1, regrouped.2) := (Prod.eta regrouped).symm
  obtain ⟨again, hagain, hwrites, _⟩ := mapAttributes_twice (by decide) (by decide) hrun
  exact ⟨by decide +kernel, again, hagain, hwrites.trans (by decide +kernel)⟩

/-- The failure is told differently: the list has three items first and then two. -/
theorem regrouped_retold :
    regrouped.1.failures.map MappingFailure.cause =
      [.host (.rejected (.ofNat 1) "groups" (.shape "float scalar" "array of 3"))] ∧
    (Mapping.mapAttributes LiveScene.host regrouping (.ofNat 1) (.ofNat 1)
      regrouped.2).1.failures.map MappingFailure.cause =
        [.host (.rejected (.ofNat 1) "groups" (.shape "float scalar" "array of 2"))] ∧
    (∀ pairing ∈ regrouping.pairings, pairing.arity ≤ 1) ∧
    ∀ pairing ∈ regrouping.pairings, pairing.target ∉ regrouping.attributes.keys := by
  exact ⟨by decide +kernel, by decide +kernel, by decide, by decide⟩

end ShaderMigration
