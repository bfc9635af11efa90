import ShaderMigration.Graph.Cleanup
import ShaderMigration.Proofs.PlugGraph
import ShaderMigration.Scene.Live

namespace ShaderMigration

namespace Memory

inductive Use where
  | get (node : NodeId)
  | put (node : NodeId) (consumers : List Consumer)
  | clear

variable {M : Type} [Memory M]

def Use.apply (memo : M) : Use → M
  | .get node => (Memory.get memo node).2
  | .put node consumers => Memory.put memo node consumers
  | .clear => Memory.clear memo

/-- The last answer put for each node, after a use. -/
def Use.record (last : NodeId → Option (List Consumer)) : Use → NodeId → Option (List Consumer)
  | .get _ => last
  | .put node consumers => fun other => if other = node then some consumers else last other
  | .clear => fun _ => none

/-- The answer put last for each node since the memory was last cleared. -/
def lastPut (uses : List Use) : NodeId → Option (List Consumer) :=
  uses.foldl Use.record fun _ => none

theorem lastPut_concat (uses : List Use) (use : Use) :
    lastPut (uses ++ [use]) = Use.record (lastPut uses) use := List.foldl_append

/-- The uses are those that the memory has seen since it was made. -/
def Saw (memo : M) (uses : List Use) : Prop :=
  ∃ capacity, memo = uses.foldl Use.apply (Memory.empty capacity)

theorem Saw.concat {memo : M} {uses : List Use} (h : Saw memo uses) (use : Use) :
    Saw (Use.apply memo use) (uses ++ [use]) := by
  obtain ⟨capacity, rfl⟩ := h
  exact ⟨capacity, by rw [List.foldl_append]; rfl⟩

end Memory

/-- Every answer of the memory is the one put last for the node since it was last cleared. -/
class LawfulMemory (M : Type) [Memory M] : Prop where
  lastPut_of_get : ∀ {memo : M} {uses : List Memory.Use} {node : NodeId} {found : List Consumer},
    Memory.Saw memo uses → (Memory.get memo node).1 = some found →
      Memory.lastPut uses node = some found

namespace Memo

open Memory (Use)

variable {memo : Memo} {node : NodeId}

/-- An answer that is read was remembered for that node, and reading brings in no other one. -/
theorem mem_of_get? {hit : List Consumer} {later : Memo} (h : memo.get? node = some (hit, later)) :
    (node, hit) ∈ memo.entries ∧ ∀ entry ∈ later.entries, entry ∈ memo.entries := by
  obtain ⟨entry, hfind, heq⟩ := Option.map_eq_some_iff.mp h
  obtain ⟨rfl, rfl⟩ := Prod.mk.inj heq
  have hmem := List.mem_of_find?_eq_some hfind
  have hkey : entry.1 = node := by simpa using List.find?_some hfind
  refine ⟨hkey ▸ hmem, ?_⟩
  intro other hother
  rcases List.mem_cons.mp hother with rfl | hother
  · exact hmem
  · exact (List.mem_filter.mp hother).1

theorem mem_put {consumers : List Consumer} {entry : NodeId × List Consumer}
    (h : entry ∈ (memo.put node consumers).entries) :
    entry = (node, consumers) ∨ entry.1 ≠ node ∧ entry ∈ memo.entries := by
  rcases List.mem_cons.mp h with h | h
  · exact Or.inl h
  · obtain ⟨hmem, hne⟩ := List.mem_filter.mp (List.mem_of_mem_take h)
    exact Or.inr ⟨by simpa using hne, hmem⟩

/-- What the memo holds for a node is what was last put for it. -/
def Recalls (memo : Memo) (last : NodeId → Option (List Consumer)) : Prop :=
  ∀ entry ∈ memo.entries, last entry.1 = some entry.2

theorem Recalls.apply {last : NodeId → Option (List Consumer)} (h : memo.Recalls last) (use : Use) :
    Recalls (Use.apply memo use) (Use.record last use) := by
  cases use with
  | get node =>
    cases hget : memo.get? node with
    | none => simpa [Use.apply, Use.record, Memory.get, hget] using h
    | some answer =>
      intro entry hentry
      simp only [Use.apply, Memory.get, hget] at hentry
      exact h entry ((mem_of_get? hget).2 entry hentry)
  | put node consumers =>
    intro entry hentry
    rcases mem_put hentry with rfl | ⟨hne, hentry⟩
    · exact if_pos rfl
    · exact (if_neg hne).trans (h entry hentry)
  | clear => exact fun entry hentry => by cases hentry

instance : LawfulMemory Memo where
  lastPut_of_get := by
    intro _ uses node found hh hget
    obtain ⟨capacity, rfl⟩ := hh
    have hrecalls : ∀ (uses : List Use) {memo : Memo} {last : NodeId → Option (List Consumer)},
        memo.Recalls last → Recalls (uses.foldl Use.apply memo) (uses.foldl Use.record last) := by
      intro uses
      induction uses with
      | nil => exact fun h => h
      | cons use rest ih => exact fun h => ih (h.apply use)
    have hlast : Recalls (uses.foldl Use.apply (Memory.empty capacity : Memo))
        (Memory.lastPut uses) := hrecalls uses fun entry hentry => by cases hentry
    generalize uses.foldl Use.apply (Memory.empty capacity : Memo) = memo at hget hlast
    cases hfound : memo.get? node with
    | none => simp [Memory.get, hfound] at hget
    | some answer =>
      have hhit : answer.1 = found := by simpa [Memory.get, hfound] using hget
      exact hhit ▸ hlast _ (mem_of_get? hfound).1

end Memo

namespace Resolver

variable {M : Type}

theorem memo_foldl_addRoot (more : List NodeId) (resolver : Resolver M) :
    (more.foldl addRoot resolver).memo = resolver.memo := by
  induction more generalizing resolver with
  | nil => rfl
  | cons root rest ih =>
    rw [List.foldl_cons, ih, addRoot]
    split <;> rfl

variable [Memory M] {resolver : Resolver M} {reads : Reads} {node : NodeId}

/-- All that was put into the memory is what the walks would give now.  Queries keep it so; a repointing
that changes the scene makes the memory forget everything, and any other one leaves the scene alone. -/
def Faithful (resolver : Resolver M) (reads : Reads) : Prop :=
  ∀ memo ∈ resolver.memo, ∃ uses, Memory.Saw memo uses ∧ ∀ node found,
    Memory.lastPut uses node = some found → reads.consumers? resolver.roots node = some found

def plain (resolver : Resolver M) : Resolver M := { resolver with memo := none }

theorem faithful_ofRoots (roots more : List NodeId) (capacity : Nat) (reads : Reads) :
    (ofRoots roots more capacity : Resolver M).Faithful reads := by
  intro memo hm
  rw [ofRoots, memo_foldl_addRoot, Memory.ofCapacity?] at hm
  split at hm
  next => cases hm
  next =>
    cases hm
    exact ⟨[], ⟨capacity, rfl⟩, fun _ _ h => by cases h⟩

theorem plain_ofRoots (roots more : List NodeId) (capacity : Nat) :
    (ofRoots roots more capacity : Resolver M).plain = ofRoots roots more 0 := by
  have hplain : ∀ (more : List NodeId) (resolver : Resolver M),
      (more.foldl addRoot resolver).plain = more.foldl addRoot resolver.plain := by
    intro more
    induction more with
    | nil => exact fun _ => rfl
    | cons root rest ih =>
      intro resolver
      have hroot : (resolver.addRoot root).plain = resolver.plain.addRoot root := by
        by_cases hm : root ∈ resolver.roots <;> simp [addRoot, plain, hm]
      rw [List.foldl_cons, List.foldl_cons, ih, hroot]
  rw [ofRoots, hplain]
  rfl

theorem Faithful.invalidate (h : resolver.Faithful reads) (later : Reads) :
    resolver.invalidate.Faithful later := by
  intro memo hm
  obtain ⟨old, hold, rfl⟩ := Option.map_eq_some_iff.mp hm
  obtain ⟨uses, hsaw, _⟩ := h old hold
  refine ⟨uses ++ [Memory.Use.clear], hsaw.concat Memory.Use.clear, ?_⟩
  intro node found hlast
  rw [Memory.lastPut_concat] at hlast
  cases hlast

theorem consumers?_plain [LawfulMemory M] (h : resolver.Faithful reads) (node : NodeId) :
    (resolver.consumers? reads node).map (fun answer => (answer.1, answer.2.plain)) =
      resolver.plain.consumers? reads node := by
  have hright : resolver.plain.consumers? reads node =
      (reads.consumers? resolver.roots node).map fun found => (found, resolver.plain) := rfl
  rw [hright]
  unfold consumers?
  split
  next hnone => cases hr : reads.consumers? resolver.roots node <;> simp [plain]
  next memo hmemo =>
    obtain ⟨uses, hsaw, hlast⟩ := h memo hmemo
    split
    next hit later hget =>
      have hfound := LawfulMemory.lastPut_of_get hsaw (congrArg Prod.fst hget)
      rw [hlast node hit hfound]
      rfl
    next => cases hr : reads.consumers? resolver.roots node <;> simp [plain]

theorem Faithful.of_consumers? (h : resolver.Faithful reads) {found : List Consumer}
    {later : Resolver M} (hc : resolver.consumers? reads node = some (found, later)) :
    later.Faithful reads := by
  unfold consumers? at hc
  split at hc
  next =>
    obtain ⟨_, _, heq⟩ := Option.map_eq_some_iff.mp hc
    exact (Prod.mk.inj heq).2 ▸ h
  next memo hmemo =>
    obtain ⟨uses, hsaw, hlast⟩ := h memo hmemo
    have hread := hsaw.concat (.get node)
    split at hc
    next hit kept hget =>
      cases hc
      intro other hother
      cases hother
      rw [Memory.Use.apply, hget] at hread
      exact ⟨uses ++ [.get node], hread, by rwa [Memory.lastPut_concat]⟩
    next kept hget =>
      -- a miss is answered by the walks and put, so the last answer for the node is that of now
      obtain ⟨answer, hanswer, heq⟩ := Option.map_eq_some_iff.mp hc
      obtain ⟨rfl, rfl⟩ := Prod.mk.inj heq
      intro other hother
      cases hother
      rw [Memory.Use.apply, hget] at hread
      refine ⟨_, hread.concat (.put node answer), ?_⟩
      intro asked found hfound
      rw [Memory.lastPut_concat, Memory.lastPut_concat] at hfound
      simp only [Memory.Use.record] at hfound
      split at hfound
      next heq =>
        cases hfound
        exact heq ▸ hanswer
      next => exact hlast asked found hfound

end Resolver

namespace Cleanup

variable {σ M : Type} [Memory M] {host : Host σ}

def Progress.plain (p : Progress σ M) : Progress σ M := { p with resolver := p.resolver.plain }

/-- The resolver is faithful to the scene as it stands. -/
def Progress.Faithful (host : Host σ) (p : Progress σ M) : Prop :=
  p.resolver.Faithful (host.reads p.state)

theorem plain_repointConsumer (pair : Replacement) (p : Progress σ M) (consumer : Consumer) :
    (repointConsumer host pair p consumer).plain = repointConsumer host pair p.plain consumer := by
  have hstate : p.plain.state = p.state := rfl
  unfold repointConsumer
  rw [hstate]
  split <;> rfl

theorem plain_foldl (pair : Replacement) (consumers : List Consumer) (p : Progress σ M) :
    (consumers.foldl (repointConsumer host pair) p).plain =
      consumers.foldl (repointConsumer host pair) p.plain := by
  induction consumers generalizing p with
  | nil => rfl
  | cons consumer rest ih => rw [List.foldl_cons, ih, plain_repointConsumer, List.foldl_cons]

section Unharmed

variable (unharmed : ∀ consumer new state cause,
  (repoint host consumer new state).1 = .error cause → (repoint host consumer new state).2 = state)
include unharmed

theorem faithful_repointConsumer (pair : Replacement) {p : Progress σ M} (h : p.Faithful host)
    (consumer : Consumer) : (repointConsumer host pair p consumer).Faithful host := by
  unfold repointConsumer
  split
  next => exact Resolver.Faithful.invalidate h _
  next cause state heq =>
    have hstate : state = p.state := by
      have hkeep := unharmed consumer pair.new p.state cause (by rw [heq])
      rwa [heq] at hkeep
    subst hstate
    exact h

theorem faithful_foldl (pair : Replacement) (consumers : List Consumer) {p : Progress σ M}
    (h : p.Faithful host) : (consumers.foldl (repointConsumer host pair) p).Faithful host := by
  induction consumers generalizing p with
  | nil => exact h
  | cons consumer rest ih => exact ih (faithful_repointConsumer unharmed pair h consumer)

theorem repointPair?_plain [LawfulMemory M] (olds : List NodeId) (pair : Replacement)
    {p : Progress σ M} (h : p.Faithful host) :
    (repointPair? host olds p pair).map Progress.plain = repointPair? host olds p.plain pair ∧
      ∀ p' ∈ repointPair? host olds p pair, p'.Faithful host := by
  have hanswer := Resolver.consumers?_plain h pair.old
  constructor
  · have hplain : p.plain.resolver.consumers? (host.reads p.plain.state) pair.old =
        (p.resolver.consumers? (host.reads p.state) pair.old).map
          fun answer => (answer.1, answer.2.plain) := hanswer.symm
    unfold repointPair?
    rw [hplain, Option.map_map, Option.map_map]
    congr 1
    funext answer
    exact plain_foldl pair _ _
  · intro p' hp'
    obtain ⟨⟨found, later⟩, hfound, rfl⟩ := Option.map_eq_some_iff.mp hp'
    exact faithful_foldl unharmed pair _ (Resolver.Faithful.of_consumers? h hfound)

theorem foldlM_plain [LawfulMemory M] (olds : List NodeId) (pairs : List Replacement)
    {p : Progress σ M} (h : p.Faithful host) :
    (pairs.foldlM (repointPair? host olds) p).map Progress.plain =
      pairs.foldlM (repointPair? host olds) p.plain := by
  induction pairs generalizing p with
  | nil => rfl
  | cons pair rest ih =>
    obtain ⟨hplain, hfaithful⟩ := repointPair?_plain unharmed olds pair h
    rw [List.foldlM_cons, List.foldlM_cons, ← hplain]
    cases hstep : repointPair? host olds p pair with
    | none => rfl
    | some p' => exact ih (hfaithful p' hstep)

/-- On a host whose refusals change nothing, a cleanup does the same with a memory of any size as
without one. -/
theorem cleanUp?_capacity [LawfulMemory M] (capacity : Nat) (fromReplacements : Bool)
    (pairs : List Replacement) (state : σ) :
    cleanUp? (M := M) host ⟨capacity, fromReplacements⟩ pairs state =
      cleanUp? (M := M) host ⟨0, fromReplacements⟩ pairs state := by
  let start : Progress σ M :=
    { state, resolver := resolver ⟨capacity, fromReplacements⟩ (host.reads state).roots pairs }
  have hfaithful : start.Faithful host := Resolver.faithful_ofRoots _ _ _ _
  have hstart : start.plain =
      { state, resolver := resolver ⟨0, fromReplacements⟩ (host.reads state).roots pairs } := by
    simp only [Progress.plain, start, resolver, Resolver.plain_ofRoots]
  unfold cleanUp?
  dsimp only
  rw [← hstart, ← foldlM_plain unharmed _ _ hfaithful, Option.map_map]
  rfl

end Unharmed

theorem repoint_error {consumer : Consumer} {new : NodeId} {live : LiveScene} {cause : HostError}
    (h : (repoint LiveScene.host consumer new live).1 = .error cause) :
    (repoint LiveScene.host consumer new live).2 = live := by
  unfold repoint at h ⊢
  cases hindex : consumer.index with
  | none =>
    simp only [hindex] at h ⊢
    exact LiveScene.edit_error h
  | some index =>
    simp only [hindex] at h ⊢
    exact LiveScene.edit_error h

/-- Whatever the pairs and the roots, the size of a lawful memory shows neither in the report nor in
the scene, and not in whether the walks end. -/
theorem cleanUp?_eq_without_memo {M : Type} [Memory M] [LawfulMemory M] (capacity : Nat)
    (fromReplacements : Bool) (pairs : List Replacement) (live : LiveScene) :
    cleanUp? (M := M) LiveScene.host ⟨capacity, fromReplacements⟩ pairs live =
      cleanUp? (M := M) LiveScene.host ⟨0, fromReplacements⟩ pairs live :=
  cleanUp?_capacity (fun _ _ _ _ => repoint_error) capacity fromReplacements pairs live

/-- With room for one answer, pairs that repeat and undo each other repoint two slots each. -/
theorem cleanUp?_small_memo :
    (cleanUp? (M := Memo) LiveScene.host ⟨1, false⟩
      [⟨.ofNat 2, .ofNat 3⟩, ⟨.ofNat 3, .ofNat 2⟩, ⟨.ofNat 2, .ofNat 3⟩] twiceShaded).map
        (fun result => result.1.rewired.length) = some 6 := by
  rw [cleanUp?_eq_without_memo]
  decide +kernel

end Cleanup

end ShaderMigration
