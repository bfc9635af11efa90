import ShaderMigration.Proofs.MappingRuns

namespace ShaderMigration

theorem Entries.keys_filterMap_sublist {κ α β : Type} (f : κ → α → Option β)
    (entries : List (κ × α)) :
    (keys (entries.filterMap fun entry => (f entry.1 entry.2).map fun b => (entry.1, b))).Sublist
      (keys entries) := by
  induction entries with
  | nil => exact .refl _
  | cons entry rest ih =>
    rw [List.filterMap_cons]
    cases f entry.1 entry.2 with
    | none => exact ih.cons entry.1
    | some b => exact ih.cons_cons entry.1

def Table.filterMap {κ α β : Type} [DecidableEq κ] (f : κ → α → Option β) (table : Table κ α) :
    Table κ β where
  entries := table.entries.filterMap fun entry => (f entry.1 entry.2).map fun b => (entry.1, b)
  nodup := table.nodup.sublist (Entries.keys_filterMap_sublist f table.entries)

def Table.filter {κ α : Type} [DecidableEq κ] (keep : κ → Bool) (table : Table κ α) :
    Table κ α where
  entries := table.entries.filter fun entry => keep entry.1
  nodup := table.nodup.sublist (List.filter_sublist.map Prod.fst)

/-- The rule for some of its targets; nothing is left of a rule whose only target is dropped. -/
def AttributeRule.keeping? (keep : String → Bool) : AttributeRule → Option AttributeRule
  | .rename target => if keep target then some (.rename target) else none
  | .fanOut targets => some (.fanOut (targets.filter keep))
  | .computed converters => some (.computed (converters.filter keep))

/-- The rule with some of its pairs of a source and a target. -/
def Rule.keeping {σ : Type} (keep : String → String → Bool) (rule : Rule σ) : Rule σ :=
  { rule with
    attributes := rule.attributes.filterMap fun source entry => entry.keeping? (keep source) }

theorem AttributeRule.pairings_keeping? (keep : String → Bool) (source : String)
    (rule : AttributeRule) :
    ((rule.keeping? keep).elim [] fun kept => kept.pairings source) =
      (rule.pairings source).filter fun pairing => keep pairing.target := by
  cases rule with
  | rename target => cases h : keep target <;> simp [keeping?, pairings, h]
  | fanOut targets => simp [keeping?, pairings, List.filter_map, Function.comp_def]
  | computed converters =>
    simp [keeping?, pairings, Table.filter, List.filter_map, Function.comp_def]

namespace Mapping

variable {σ : Type}

/-- The rules with some of their pairs. -/
def keptRules (keep : String → String → Bool) (rules : List (String × AttributeRule)) :
    List (String × AttributeRule) :=
  rules.filterMap fun entry => (entry.2.keeping? (keep entry.1)).map fun kept => (entry.1, kept)

theorem pairings_keptRules (keep : String → String → Bool) (rules : List (String × AttributeRule)) :
    pairingsOf (keptRules keep rules) =
      (pairingsOf rules).filter fun pairing => keep pairing.source pairing.target := by
  induction rules with
  | nil => rfl
  | cons entry rest ih =>
    have hhere : ((entry.2.pairings entry.1).filter fun pairing =>
        keep pairing.source pairing.target) =
          (entry.2.keeping? (keep entry.1)).elim [] fun kept => kept.pairings entry.1 := by
      rw [AttributeRule.pairings_keeping?]
      refine List.filter_congr fun pairing h => ?_
      rw [source_of_mem_pairings h]
    rw [pairingsOf_cons, List.filter_append, ← ih, hhere, keptRules, List.filterMap_cons]
    cases entry.2.keeping? (keep entry.1) <;> rfl

/-- Rules of which nothing is left are not missed. -/
theorem tryRules_keptRules_cons (host : Host σ) (old new : NodeId) (keep : String → String → Bool)
    (entry : String × AttributeRule) (rest : List (String × AttributeRule)) (state : σ) :
    tryRules host old new (keptRules keep (entry :: rest)) state =
      let first := tryPairings host old new (reading (host.reads state) old entry.1)
        ((entry.2.pairings entry.1).filter fun pairing => keep entry.1 pairing.target) state
      let others := tryRules host old new (keptRules keep rest) first.2
      (first.1 ++ others.1, others.2) := by
  rw [keptRules, List.filterMap_cons, ← AttributeRule.pairings_keeping?]
  cases entry.2.keeping? (keep entry.1) <;> rfl

section LiveScene

variable {old new : NodeId} {live : LiveScene}

/-- Without the pairs that fail, the others are written as before. -/
theorem tryPairings_filter (keep : Pairing → Bool) {source : String} {start : Scene}
    {pairings : List Pairing} (hsource : ∀ pairing ∈ pairings, pairing.source = source)
    (harity : ∀ pairing ∈ pairings, pairing.arity ≤ 1)
    (hkeep : ∀ attempt ∈ (tryPairings LiveScene.host old new (reading start.reads old source)
      pairings live).1, keep attempt.pairing = attempt.succeeded) :
    let run := tryPairings LiveScene.host old new (reading start.reads old source) pairings live
    tryPairings LiveScene.host old new (reading start.reads old source) (pairings.filter keep)
      live = (run.1.filter Attempt.succeeded, run.2) := by
  induction pairings generalizing live with
  | nil => rfl
  | cons pairing rest ih =>
    obtain rfl := hsource pairing (by simp)
    rw [tryPairings_cons, List.forall_mem_cons] at hkeep
    obtain ⟨hfirst, hothers⟩ := hkeep
    have hrest := ih (fun other h => hsource other (by simp [h]))
      (fun other h => harity other (by simp [h])) hothers
    rw [tryPairings_cons]
    rcases write_cases start old new (harity pairing (by simp)) live with
      ⟨scene, _, hwrite⟩ | ⟨cause, _, hwrite⟩
    · rw [hwrite] at hfirst hrest ⊢
      have hkept : keep pairing = true := hfirst
      rw [List.filter_cons_of_pos hkept, tryPairings_cons, hwrite]
      simp only [hrest]
      rfl
    · -- the failing write left the scene to the next pair as it had found it
      rw [hwrite] at hfirst hrest ⊢
      have hdropped : keep pairing = false := hfirst
      rw [List.filter_cons_of_neg (by simp [hdropped])]
      exact hrest

theorem tryRules_keptRules {keep : String → String → Bool}
    {rules : List (String × AttributeRule)}
    (harity : ∀ pairing ∈ pairingsOf rules, pairing.arity ≤ 1)
    (hkeep : ∀ attempt ∈ (tryRules LiveScene.host old new rules live).1,
      keep attempt.pairing.source attempt.pairing.target = attempt.succeeded) :
    tryRules LiveScene.host old new (keptRules keep rules) live =
      ((tryRules LiveScene.host old new rules live).1.filter Attempt.succeeded,
        (tryRules LiveScene.host old new rules live).2) := by
  induction rules generalizing live with
  | nil => rfl
  | cons entry rest ih =>
    rw [pairingsOf_cons, List.forall_mem_append] at harity
    obtain ⟨hhere, hlater⟩ := harity
    rw [tryRules_cons, List.forall_mem_append] at hkeep
    obtain ⟨hfirst, hothers⟩ := hkeep
    have hkept : ∀ attempt ∈ (tryPairings LiveScene.host old new (reading live.scene.reads old
        entry.1) (entry.2.pairings entry.1) live).1,
          keep entry.1 attempt.pairing.target = attempt.succeeded := by
      intro attempt h
      rw [← hfirst attempt h, source_of_mem_pairings (pairing_mem_of_tryPairings h)]
    have hblock := tryPairings_filter (fun pairing => keep entry.1 pairing.target)
      (fun pairing h => source_of_mem_pairings h) hhere hkept
    have hreads : LiveScene.host.reads live = live.scene.reads := rfl
    rw [hreads] at hothers
    rw [tryRules_keptRules_cons, tryRules_cons, hreads, hblock]
    simp only [ih hlater hothers, List.filter_append]

theorem attempts_keeping {keep : String → String → Bool} {rule : Rule LiveScene}
    (harity : ∀ pairing ∈ rule.pairings, pairing.arity ≤ 1)
    (hkeep : ∀ attempt ∈ (attempts LiveScene.host rule old new live).1,
      keep attempt.pairing.source attempt.pairing.target = attempt.succeeded) :
    attempts LiveScene.host (rule.keeping keep) old new live =
      ((attempts LiveScene.host rule old new live).1.filter Attempt.succeeded,
        (attempts LiveScene.host rule old new live).2) :=
  tryRules_keptRules harity hkeep

end LiveScene

theorem tally_filter_succeeded (old new : NodeId) (attempts : List Attempt) :
    tally old new (attempts.filter Attempt.succeeded) =
      { writes := (tally old new attempts).writes } := by
  have hnone : (attempts.filter Attempt.succeeded).filterMap (Attempt.failure? old new) = [] := by
    rw [List.filterMap_eq_nil_iff]
    intro attempt h
    obtain ⟨pairing, result⟩ := attempt
    cases result with
    | ok _ => rfl
    | error cause => cases (List.mem_filter.mp h).2
  rw [tally, hnone, List.countP_filter]
  simp [tally]

end Mapping

/-- Each pair of a rule is written or recorded, whatever the host does; and on a scene in memory the
rule without the pairs that failed writes the others to the same end. -/
theorem mapAttributes_isolates_failures :
    (∀ {σ : Type} (host : Host σ) (rule : Rule σ) (old new : NodeId) (state : σ),
      let run := Mapping.mapAttributes host rule old new state
      let attempts := Mapping.attempts host rule old new state
      run = (Mapping.tally old new attempts.1, attempts.2) ∧
        attempts.1.map Mapping.Attempt.pairing = rule.pairings ∧
        run.1.writes + run.1.failures.length = rule.pairings.length) ∧
    ∀ (rule : Rule LiveScene) (old new : NodeId) (live : LiveScene),
      (∀ pairing ∈ rule.pairings, pairing.arity ≤ 1) →
        let run := Mapping.mapAttributes LiveScene.host rule old new live
        (rule.keeping run.1.wrote).pairings =
            (rule.pairings.filter fun pairing => run.1.wrote pairing.source pairing.target) ∧
          Mapping.mapAttributes LiveScene.host (rule.keeping run.1.wrote) old new live =
            ({ writes := run.1.writes }, run.2) := by
  refine ⟨fun host rule old new state => ?_, fun rule old new live harity => ?_⟩
  · have hpairings := Mapping.pairings_attempts host old new rule state
    refine ⟨Mapping.mapAttributes_eq_tally host old new rule state, hpairings, ?_⟩
    rw [Mapping.mapAttributes_eq_tally, Mapping.total_tally, ← hpairings, List.length_map]
  · refine ⟨Mapping.pairings_keptRules _ rule.attributes.entries, ?_⟩
    have hwrote : ∀ attempt ∈ (Mapping.attempts LiveScene.host rule old new live).1,
        (Mapping.mapAttributes LiveScene.host rule old new live).1.wrote attempt.pairing.source
          attempt.pairing.target = attempt.succeeded :=
      fun _ h => Mapping.wrote_mapAttributes harity h
    rw [Mapping.mapAttributes_eq_tally _ _ _ (rule.keeping _),
      Mapping.attempts_keeping harity hwrote, Mapping.tally_filter_succeeded,
      Mapping.mapAttributes_eq_tally]

/-- A shader that swaps two attributes in place, and is also asked for some that are missing. -/
def swapping : Rule LiveScene :=
  ((Rule.onto.rename "color" "matte").fanOut "matte" ["color", "sheen", "sheen"]).computed "ior"
    "color" (.unary .ok)

/-- Two pairs are written; the others fail, the one that is named twice included. -/
theorem swapping_isolates_failures :
    let run := Mapping.mapAttributes LiveScene.host swapping (.ofNat 2) (.ofNat 2) twiceShaded
    run.1.writes = 2 ∧
      run.1.failures.map (fun failure => (failure.source, failure.target)) =
        [("matte", "sheen"), ("matte", "sheen"), ("ior", "color")] ∧
      Mapping.mapAttributes LiveScene.host (swapping.keeping run.1.wrote) (.ofNat 2) (.ofNat 2)
        twiceShaded = ({ writes := 2 }, run.2) := by
  have hwrites : (Mapping.mapAttributes LiveScene.host swapping (.ofNat 2) (.ofNat 2)
      twiceShaded).1.writes = 2 := by decide +kernel
  have hkept := (mapAttributes_isolates_failures.2 swapping (.ofNat 2) (.ofNat 2) twiceShaded
    (by decide)).2
  rw [hwrites] at hkept
  exact ⟨hwrites, by decide +kernel, hkept⟩

end ShaderMigration
