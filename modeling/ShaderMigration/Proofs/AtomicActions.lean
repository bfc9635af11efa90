import ShaderMigration.Proofs.HostCalls

namespace ShaderMigration

open Host (setIndexedByCopy)

namespace Action

variable {σ α β : Type} {action : Action σ α} {next : α → Action σ β}

def Looks (action : Action σ α) : Prop := ∀ state, (action state).2 = state

def Succeeds (action : Action σ α) : Prop := ∀ state, ∃ result, (action state).1 = .ok result

/-- An operation that leaves everything as it was if it fails. -/
def Atomic (action : Action σ α) : Prop :=
  ∀ state cause, (action state).1 = .error cause → (action state).2 = state

theorem bind_apply (action : Action σ α) (next : α → Action σ β) (state : σ) :
    (action >>= next) state = match action state with
      | (.ok result, later) => next result later
      | (.error cause, later) => (.error cause, later) := by
  have hbind : (action >>= next) state =
      ExceptT.bindCont next (action state).1 (action state).2 := rfl
  rw [hbind]
  cases action state with
  | mk answer later => cases answer <;> rfl

theorem looks_pure (result : α) : Looks (pure result : Action σ α) := fun _ => rfl

theorem succeeds_pure (result : α) : Succeeds (pure result : Action σ α) := fun _ => ⟨result, rfl⟩

theorem atomic_throw (cause : HostError) : Atomic (throw cause : Action σ α) := fun _ _ _ => rfl

theorem Looks.bind (h : Looks action) (hnext : ∀ result, Looks (next result)) :
    Looks (action >>= next) := by
  intro state
  have hstate := h state
  rw [bind_apply]
  cases hrun : action state with
  | mk answer later =>
    rw [hrun] at hstate
    cases answer with
    | error cause => exact hstate
    | ok result => exact (hnext result later).trans hstate

theorem Succeeds.bind (h : Succeeds action) (hnext : ∀ result, Succeeds (next result)) :
    Succeeds (action >>= next) := by
  intro state
  obtain ⟨result, hresult⟩ := h state
  rw [bind_apply]
  cases hrun : action state with
  | mk answer later =>
    rw [hrun] at hresult
    obtain rfl : answer = .ok result := hresult
    exact hnext result later

theorem Succeeds.atomic (h : Succeeds action) : Atomic action := by
  intro state cause hcause
  obtain ⟨result, hresult⟩ := h state
  cases hresult.symm.trans hcause

theorem Looks.atomic_bind (h : Looks action) (hnext : ∀ result, Atomic (next result)) :
    Atomic (action >>= next) := by
  intro state cause hcause
  have hstate := h state
  rw [bind_apply] at hcause ⊢
  cases hrun : action state with
  | mk answer later =>
    rw [hrun] at hstate hcause
    cases answer with
    | error other => exact hstate
    | ok result => exact (hnext result later cause hcause).trans hstate

end Action

open ShaderMigration.Action (Looks Succeeds Atomic)

namespace Host

variable {σ : Type} {host : Host σ}

/-- Every operation leaves everything as it was if it fails. -/
structure Atomic (host : Host σ) : Prop where
  rename : ∀ node name, Action.Atomic (host.rename node name)
  create : ∀ type secondary, Action.Atomic (host.create type secondary)
  set : ∀ node attr value, Action.Atomic (host.set node attr value)
  connect : ∀ source node attr, Action.Atomic (host.connect source node attr)
  setIndexed : ∀ node attr index value, Action.Atomic (host.setIndexed node attr index value)
  setTag : ∀ node key text, Action.Atomic (host.setTag node key text)

/-- The copy of the array is lost if it is not written back. -/
theorem atomic_setIndexedByCopy (h : ∀ node attr value, Action.Atomic (host.set node attr value))
    (node : NodeId) (attr : String) (index : Nat) (value : Value) :
    Action.Atomic (host.setIndexedByCopy node attr index value) := by
  intro state cause hcause
  unfold setIndexedByCopy at hcause ⊢
  split
  next => rfl
  next items hitems =>
    simp only [hitems] at hcause
    split
    next hindex =>
      rw [if_pos hindex] at hcause
      exact h node attr _ state cause hcause
    next => rfl
  next => rfl

theorem Atomic.byCopy (h : host.Atomic) :
    Host.Atomic { host with setIndexed := host.setIndexedByCopy } where
  rename := h.rename
  create := h.create
  set := h.set
  connect := h.connect
  setIndexed := atomic_setIndexedByCopy h.set
  setTag := h.setTag

def errorOf {α : Type} : Except HostError α → Option HostError
  | .error cause => some cause
  | .ok _ => none

def failure? (host : Host σ) (state : σ) : HostCall → Option HostError
  | .rename node name => errorOf (host.rename node name state).1
  | .create type secondary => errorOf (host.create type secondary state).1
  | .set node attr value => errorOf (host.set node attr value state).1
  | .connect source node attr => errorOf (host.connect source node attr state).1
  | .setIndexed node attr index value => errorOf (host.setIndexed node attr index value state).1
  | .setTag node key text => errorOf (host.setTag node key text state).1

theorem errorOf_eq_some_iff {α : Type} {answer : Except HostError α} {cause : HostError} :
    errorOf answer = some cause ↔ answer = .error cause := by
  cases answer <;> simp [errorOf]

theorem Atomic.after_eq (h : host.Atomic) {state : σ} {call : HostCall} {cause : HostError}
    (hcause : host.failure? state call = some cause) : host.after state call = state := by
  cases call with
  | rename node name => exact h.rename node name state cause (errorOf_eq_some_iff.mp hcause)
  | create type secondary => exact h.create type secondary state cause (errorOf_eq_some_iff.mp hcause)
  | set node attr value => exact h.set node attr value state cause (errorOf_eq_some_iff.mp hcause)
  | connect source node attr =>
    exact h.connect source node attr state cause (errorOf_eq_some_iff.mp hcause)
  | setIndexed node attr index value =>
    exact h.setIndexed node attr index value state cause (errorOf_eq_some_iff.mp hcause)
  | setTag node key text => exact h.setTag node key text state cause (errorOf_eq_some_iff.mp hcause)

end Host

end ShaderMigration
