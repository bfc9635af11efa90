import ShaderMigration.Mapping

namespace ShaderMigration

/-- A target with the attribute that it is written from and, unless it is a copy, how it is
computed. -/
structure Pairing where
  source : String
  target : String
  converter : Option Converter := none

namespace Pairing

/-- How much is read for it: one if only the source is. -/
def arity (pairing : Pairing) : Nat := pairing.converter.elim 1 Converter.arity

end Pairing

def AttributeRule.pairings (source : String) : AttributeRule → List Pairing
  | .rename target => [⟨source, target, none⟩]
  | .fanOut targets => targets.map fun target => ⟨source, target, none⟩
  | .computed converters => converters.entries.map fun entry => ⟨source, entry.1, some entry.2⟩

def pairingsOf (rules : List (String × AttributeRule)) : List Pairing :=
  rules.flatMap fun entry => entry.2.pairings entry.1

theorem pairingsOf_cons (entry : String × AttributeRule) (rest : List (String × AttributeRule)) :
    pairingsOf (entry :: rest) = entry.2.pairings entry.1 ++ pairingsOf rest := List.flatMap_cons

/-- The pairs of a source and a target in declared order. -/
def Rule.pairings {σ : Type} (rule : Rule σ) : List Pairing := pairingsOf rule.attributes.entries

namespace Mapping

variable {σ : Type}

/-- What is read from an attribute for all of its targets, by copies and by computations. -/
structure Reading where
  source : Except HostError Source
  stored : Except HostError Value

def reading (reads : Reads) (old : NodeId) (attr : String) : Reading :=
  ⟨readSource reads old attr, reads.getStatic old attr⟩

def write (host : Host σ) (old new : NodeId) (read : Reading) (pairing : Pairing) (state : σ) :
    Except MappingCause Unit × σ :=
  match pairing.converter with
  | some converter => computeTarget host read.stored old new pairing.target converter state
  | none =>
    match read.source with
    | .error cause => (.error (.host cause), state)
    | .ok source =>
      let written := writeSource host source new pairing.target state
      (written.1.mapError .host, written.2)

/-- A pair, and what came of it. -/
structure Attempt where
  pairing : Pairing
  result : Except MappingCause Unit

namespace Attempt

def succeeded (attempt : Attempt) : Bool := attempt.result.toBool

def failure? (old new : NodeId) (attempt : Attempt) : Option MappingFailure :=
  match attempt.result with
  | .ok () => none
  | .error cause => some ⟨old, new, attempt.pairing.source, attempt.pairing.target, cause⟩

end Attempt

/-- Tries pairs of one source in turn. -/
def tryPairings (host : Host σ) (old new : NodeId) (read : Reading) :
    List Pairing → StateM σ (List Attempt)
  | [] => pure []
  | pairing :: rest => fun state =>
    let (result, state) := write host old new read pairing state
    let (others, state) := tryPairings host old new read rest state
    (⟨pairing, result⟩ :: others, state)

/-- Tries the pairs of all rules; each source is read when its turn comes. -/
def tryRules (host : Host σ) (old new : NodeId) :
    List (String × AttributeRule) → StateM σ (List Attempt)
  | [] => pure []
  | (source, rule) :: rest => fun state =>
    let read := reading (host.reads state) old source
    let (first, state) := tryPairings host old new read (rule.pairings source) state
    let (others, state) := tryRules host old new rest state
    (first ++ others, state)

theorem tryPairings_cons (host : Host σ) (old new : NodeId) (read : Reading) (pairing : Pairing)
    (rest : List Pairing) (state : σ) :
    tryPairings host old new read (pairing :: rest) state =
      let first := write host old new read pairing state
      let others := tryPairings host old new read rest first.2
      (⟨pairing, first.1⟩ :: others.1, others.2) := rfl

theorem tryRules_cons (host : Host σ) (old new : NodeId) (entry : String × AttributeRule)
    (rest : List (String × AttributeRule)) (state : σ) :
    tryRules host old new (entry :: rest) state =
      let first := tryPairings host old new (reading (host.reads state) old entry.1)
        (entry.2.pairings entry.1) state
      let others := tryRules host old new rest first.2
      (first.1 ++ others.1, others.2) := rfl

def attempts (host : Host σ) (rule : Rule σ) (old new : NodeId) : StateM σ (List Attempt) :=
  tryRules host old new rule.attributes.entries

/-- The attempts that succeeded are counted, the others are recorded in order. -/
def tally (old new : NodeId) (attempts : List Attempt) : Outcome where
  writes := attempts.countP Attempt.succeeded
  failures := attempts.filterMap (Attempt.failure? old new)

section Tally

variable {old new : NodeId}

theorem tally_append (first second : List Attempt) :
    tally old new (first ++ second) = (tally old new first).append (tally old new second) := by
  simp [tally, Outcome.append]

theorem tally_cons (attempt : Attempt) (rest : List Attempt) :
    tally old new (attempt :: rest) =
      (ofAttempt old new attempt.pairing.source attempt.pairing.target attempt.result).append
        (tally old new rest) := by
  obtain ⟨pairing, result⟩ := attempt
  cases result with
  | ok _ =>
    have hsucceeded : (⟨pairing, .ok ()⟩ : Attempt).succeeded = true := rfl
    have hfailure : (⟨pairing, .ok ()⟩ : Attempt).failure? old new = none := rfl
    simp [tally, Outcome.append, ofAttempt, hsucceeded, hfailure, Nat.add_comm]
  | error cause =>
    have hsucceeded : (⟨pairing, .error cause⟩ : Attempt).succeeded = false := rfl
    have hfailure : (⟨pairing, .error cause⟩ : Attempt).failure? old new =
        some ⟨old, new, pairing.source, pairing.target, cause⟩ := rfl
    simp [tally, Outcome.append, ofAttempt, hsucceeded, hfailure]

theorem total_tally (attempts : List Attempt) :
    (tally old new attempts).writes + (tally old new attempts).failures.length =
      attempts.length := by
  induction attempts with
  | nil => rfl
  | cons attempt rest ih =>
    have hfirst := total_ofAttempt old new attempt.pairing.source attempt.pairing.target
      attempt.result
    rw [tally_cons]
    simp only [Outcome.append, List.length_append, List.length_cons]
    omega

end Tally

section Attempts

variable (host : Host σ) (old new : NodeId)

theorem copyFrom_eq_tally (source : String) (targets : List String) (state : σ) :
    copyFrom host old new source targets state =
      let run := tryPairings host old new (reading (host.reads state) old source)
        (targets.map fun target => ⟨source, target, none⟩) state
      (tally old new run.1, run.2) := by
  unfold copyFrom
  cases hread : readSource (host.reads state) old source with
  | error cause =>
    have hall : ∀ (targets : List String) (read : Reading), read.source = .error cause →
        tryPairings host old new read (targets.map fun target => ⟨source, target, none⟩) state =
          (targets.map fun target => ⟨⟨source, target, none⟩, .error (.host cause)⟩, state) := by
      intro targets read hsource
      induction targets with
      | nil => rfl
      | cons target rest ih => simp only [List.map_cons, tryPairings, write, hsource, ih]
    rw [hall targets _ hread]
    simp [tally, Attempt.succeeded, Attempt.failure?, Except.toBool, Function.comp_def]
  | ok read =>
    have hall : ∀ (targets : List String) (held : Reading) (later : σ), held.source = .ok read →
        copy host old new source read targets later =
          let run := tryPairings host old new held
            (targets.map fun target => ⟨source, target, none⟩) later
          (tally old new run.1, run.2) := by
      intro targets held later hsource
      induction targets generalizing later with
      | nil => rfl
      | cons target rest ih =>
        simp only [copy_cons, List.map_cons, tryPairings_cons, write, hsource, ih, tally_cons]
    exact hall targets _ state hread

theorem compute_eq_tally (source : String) (read : Reading)
    (converters : List (String × Converter)) (state : σ) :
    compute host old new source read.stored converters state =
      let run := tryPairings host old new read
        (converters.map fun entry => ⟨source, entry.1, some entry.2⟩) state
      (tally old new run.1, run.2) := by
  induction converters generalizing state with
  | nil => rfl
  | cons entry rest ih =>
    simp only [compute, List.map_cons, tryPairings_cons, write, ih, tally_cons]

theorem apply_eq_tally (source : String) (rule : AttributeRule) (state : σ) :
    apply host source rule old new state =
      let run := tryPairings host old new (reading (host.reads state) old source)
        (rule.pairings source) state
      (tally old new run.1, run.2) := by
  cases rule with
  | rename target => exact copyFrom_eq_tally host old new source [target] state
  | fanOut targets => exact copyFrom_eq_tally host old new source targets state
  | computed converters =>
    exact compute_eq_tally host old new source (reading (host.reads state) old source)
      converters.entries state

theorem applyAll_eq_tally (rules : List (String × AttributeRule)) (state : σ) :
    applyAll host old new rules state =
      (tally old new (tryRules host old new rules state).1,
        (tryRules host old new rules state).2) := by
  induction rules generalizing state with
  | nil => rfl
  | cons entry rest ih => simp only [applyAll, tryRules_cons, apply_eq_tally, ih, tally_append]

theorem mapAttributes_eq_tally (rule : Rule σ) (state : σ) :
    mapAttributes host rule old new state =
      (tally old new (attempts host rule old new state).1, (attempts host rule old new state).2) :=
  applyAll_eq_tally host old new rule.attributes.entries state

theorem pairings_tryPairings (read : Reading) (pairings : List Pairing) (state : σ) :
    (tryPairings host old new read pairings state).1.map Attempt.pairing = pairings := by
  induction pairings generalizing state with
  | nil => rfl
  | cons pairing rest ih => exact congrArg (pairing :: ·) (ih _)

theorem pairings_tryRules (rules : List (String × AttributeRule)) (state : σ) :
    (tryRules host old new rules state).1.map Attempt.pairing = pairingsOf rules := by
  induction rules generalizing state with
  | nil => rfl
  | cons entry rest ih =>
    simp only [tryRules_cons, List.map_append, pairings_tryPairings, ih, pairingsOf_cons]

theorem pairings_attempts (rule : Rule σ) (state : σ) :
    (attempts host rule old new state).1.map Attempt.pairing = rule.pairings :=
  pairings_tryRules host old new rule.attributes.entries state

end Attempts

section Members

variable {host : Host σ} {old new : NodeId} {state : σ} {attempt : Attempt}

theorem pairing_mem_of_tryPairings {read : Reading} {pairings : List Pairing}
    (h : attempt ∈ (tryPairings host old new read pairings state).1) :
    attempt.pairing ∈ pairings := by
  rw [← pairings_tryPairings host old new read pairings state]
  exact List.mem_map_of_mem h

theorem pairing_mem_of_tryRules {rules : List (String × AttributeRule)}
    (h : attempt ∈ (tryRules host old new rules state).1) :
    attempt.pairing ∈ pairingsOf rules := by
  rw [← pairings_tryRules host old new rules state]
  exact List.mem_map_of_mem h

end Members

end Mapping

end ShaderMigration
