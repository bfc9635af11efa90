import ShaderMigration.Mapping
import ShaderMigration.Proofs.SceneEdits

namespace ShaderMigration

/-- A fixed value is admissible; a computed one is when the value it is computed from is. -/
def Converter.Respects (A : Value → Prop) : Converter → Prop
  | .constant fixed => A fixed
  | converter => ∀ value old new result,
      A value → converter.evaluate value old new = .ok result → A result

theorem Converter.Respects.evaluate {A : Value → Prop} {converter : Converter}
    (h : converter.Respects A) {value result : Value} {old new : NodeView} (hv : A value)
    (he : converter.evaluate value old new = .ok result) : A result := by
  cases converter with
  | constant fixed => exact Except.ok.inj he ▸ h
  | unary f => exact h value old new result hv he
  | binary f => exact h value old new result hv he
  | ternary f => exact h value old new result hv he

def AttributeRule.Respects (A : Value → Prop) : AttributeRule → Prop
  | .computed converters => ∀ entry ∈ converters.entries, entry.2.Respects A
  | _ => True

def Rule.Respects {σ : Type} (A : Value → Prop) (rule : Rule σ) : Prop :=
  ∀ entry ∈ rule.attributes.entries, entry.2.Respects A

namespace Mapping

variable {σ : Type}

/-- What is read from the old node is admissible, and writing something admissible to the new node
keeps a property of the state. -/
structure Keeps (host : Host σ) (old new : NodeId) (I : σ → Prop) (A : Value → Prop) : Prop where
  get : ∀ {s attr value}, I s → (host.reads s).get old attr = .ok value → A value
  getStatic : ∀ {s attr value}, I s → (host.reads s).getStatic old attr = .ok value → A value
  connections : ∀ {s attr plugs}, I s → (host.reads s).connections old attr = .ok plugs →
    ∀ plug ∈ plugs, A (.connection plug)
  connect : ∀ {s} plug attr, I s → A (.connection plug) → I (host.connect plug new attr s).2
  set : ∀ {s} attr value, I s → A value → I (host.set new attr value s).2

def Source.Respects (A : Value → Prop) : Source → Prop
  | .live plugs => ∀ plug ∈ plugs, A (.connection plug)
  | .stored value => A value

variable {host : Host σ} {old new : NodeId} {I : σ → Prop} {A : Value → Prop}

theorem action_bind {α β : Type} (x : Action σ α) (f : α → Action σ β) (s : σ) :
    (x >>= f) s =
      match x s with
      | (.ok a, s') => f a s'
      | (.error cause, s') => (.error cause, s') := by
  simp only [bind, ExceptT.bind, ExceptT.mk, StateT.bind, ExceptT.bindCont]
  cases x s with
  | mk result s' => cases result <;> rfl

theorem readSource_eq_ok {reads : Reads} {attr : String} {source : Source}
    (h : readSource reads old attr = .ok source) :
    (∃ plug, reads.get old attr = .ok (.connection plug) ∧ source = .live [plug]) ∨
      (∃ plugs, reads.connections old attr = .ok plugs ∧ source = .live plugs) ∨
        ∃ value, reads.getStatic old attr = .ok value ∧ source = .stored value := by
  have hunder : (do
      let plugs ← reads.connections old attr
      if plugs.isEmpty then return .stored (← reads.getStatic old attr) else return .live plugs) =
        Except.ok source →
      (∃ plugs, reads.connections old attr = .ok plugs ∧ source = .live plugs) ∨
        ∃ value, reads.getStatic old attr = .ok value ∧ source = .stored value := by
    intro h
    obtain ⟨plugs, hplugs, h⟩ := except_bind_eq_ok_iff.mp h
    split at h
    next =>
      obtain ⟨value, hvalue, h⟩ := except_bind_eq_ok_iff.mp h
      exact Or.inr ⟨value, hvalue, (Except.ok.inj h).symm⟩
    next => exact Or.inl ⟨plugs, hplugs, (Except.ok.inj h).symm⟩
  obtain ⟨value, hget, h⟩ := except_bind_eq_ok_iff.mp h
  cases value with
  | connection plug => exact Or.inl ⟨plug, hget, (Except.ok.inj h).symm⟩
  | scalar payload => exact Or.inr (hunder h)
  | array items => exact Or.inr (hunder h)

namespace Keeps

variable (k : Keeps host old new I A)
include k

theorem respects_readSource {s : σ} (hs : I s) {attr : String} {source : Source}
    (h : readSource (host.reads s) old attr = .ok source) : source.Respects A := by
  rcases readSource_eq_ok h with ⟨plug, hget, rfl⟩ | ⟨plugs, hplugs, rfl⟩ | ⟨value, hvalue, rfl⟩
  · intro p hp
    rw [List.mem_singleton.mp hp]
    exact k.get hs hget
  · exact k.connections hs hplugs
  · exact k.getStatic hs hvalue

theorem connectAll {plugs : List Plug} (attr : String) {s : σ} (hs : I s)
    (hp : ∀ plug ∈ plugs, A (.connection plug)) : I (connectAll host new attr plugs s).2 := by
  induction plugs generalizing s with
  | nil => exact hs
  | cons plug rest ih =>
    have hfirst := k.connect plug attr hs (hp plug (by simp))
    rw [Mapping.connectAll, action_bind]
    split
    next s' heq =>
      rw [heq] at hfirst
      exact ih hfirst fun p hm => hp p (by simp [hm])
    next s' heq =>
      rw [heq] at hfirst
      exact hfirst

theorem writeSource {source : Source} (hsource : source.Respects A) (target : String) {s : σ}
    (hs : I s) : I (writeSource host source new target s).2 := by
  cases source with
  | live plugs => exact k.connectAll target hs hsource
  | stored value => exact k.set target value hs hsource

theorem copy {source : Source} (hsource : source.Respects A) (attr : String)
    (targets : List String) {s : σ} (hs : I s) : I (copy host old new attr source targets s).2 := by
  induction targets generalizing s with
  | nil => exact hs
  | cons target rest ih => exact ih (k.writeSource hsource target hs)

theorem copyFrom (attr : String) (targets : List String) {s : σ} (hs : I s) :
    I (copyFrom host old new attr targets s).2 := by
  unfold Mapping.copyFrom
  split
  next source hsource => exact k.copy (k.respects_readSource hs hsource) attr targets hs
  next => exact hs

omit k in
theorem respects_computeValue {reads : Reads} {stored : Except HostError Value}
    (hstored : ∀ value, stored = .ok value → A value) {converter : Converter}
    (hc : converter.Respects A) {value : Value}
    (h : computeValue reads stored old new converter = .ok value) : A value := by
  unfold computeValue at h
  split at h
  next fixed => exact Except.ok.inj h ▸ hc
  next =>
    split at h
    next => cases h
    next source => exact hc.evaluate (hstored source rfl) (except_mapError_eq_ok_iff.mp h)

theorem computeTarget {stored : Except HostError Value}
    (hstored : ∀ value, stored = .ok value → A value) (target : String) {converter : Converter}
    (hc : converter.Respects A) {s : σ} (hs : I s) :
    I (computeTarget host stored old new target converter s).2 := by
  unfold Mapping.computeTarget
  split
  next => exact hs
  next value hvalue => exact k.set target value hs (respects_computeValue hstored hc hvalue)

theorem compute {stored : Except HostError Value}
    (hstored : ∀ value, stored = .ok value → A value) (attr : String)
    {converters : List (String × Converter)} (hc : ∀ entry ∈ converters, entry.2.Respects A) {s : σ}
    (hs : I s) : I (compute host old new attr stored converters s).2 := by
  induction converters generalizing s with
  | nil => exact hs
  | cons entry rest ih =>
    have hfirst := k.computeTarget hstored entry.1 (hc entry (by simp)) hs
    exact ih (fun e he => hc e (by simp [he])) hfirst

theorem apply (attr : String) {rule : AttributeRule} (hr : rule.Respects A) {s : σ} (hs : I s) :
    I (apply host attr rule old new s).2 := by
  cases rule with
  | rename target => exact k.copyFrom attr [target] hs
  | fanOut targets => exact k.copyFrom attr targets hs
  | computed converters => exact k.compute (fun value hv => k.getStatic hs hv) attr hr hs

theorem applyAll {rules : List (String × AttributeRule)} (hr : ∀ entry ∈ rules, entry.2.Respects A)
    {s : σ} (hs : I s) : I (applyAll host old new rules s).2 := by
  induction rules generalizing s with
  | nil => exact hs
  | cons entry rest ih =>
    exact ih (fun e he => hr e (by simp [he])) (k.apply entry.1 (hr entry (by simp)) hs)

theorem mapAttributes {rule : Rule σ} (hr : rule.Respects A) {s : σ} (hs : I s) :
    I (mapAttributes host rule old new s).2 := k.applyAll hr hs

end Keeps

end Mapping

end ShaderMigration
