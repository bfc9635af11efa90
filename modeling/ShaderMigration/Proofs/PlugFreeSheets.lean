import ShaderMigration.Proofs.MappingInvariant

namespace ShaderMigration

/-- The document is not read as a value with a plug in it. -/
def Data.PlugFree (d : Data) : Prop := ∀ value, Value.ofLiteral d = .ok value → value.plugs = []

namespace Expr

mutual

def literals : Expr → List Data
  | lookup entries default => entries.map Prod.fst ++ entries.map Prod.snd ++ default.toList
  | equals value yes no => [value, yes, no]
  | greaterThan _ yes no => [yes, no]
  | chain steps => literalsOf steps
  | _ => []

def literalsOf : List Expr → List Data
  | [] => []
  | step :: rest => step.literals ++ literalsOf rest

end

theorem plugs_of_literal {d : Data} (hd : d.PlugFree) {value : Value} (h : literal d = .ok value) :
    value.plugs = [] := hd value (except_mapError_eq_ok_iff.mp h)

theorem plugs_of_mapNumbers {f : Float → Float} {value result : Value}
    (h : mapNumbers f value = .ok result) : result.plugs = [] := by
  unfold mapNumbers at h
  split at h
  next => cases h; simp [Value.vector3, Value.plugs]
  next => cases h; simp [Value.color, Value.plugs]
  next =>
    obtain ⟨x, _, rfl⟩ := except_map_eq_ok_iff.mp h
    simp [Value.float, Value.plugs]

theorem mem_of_find {value : Value} {entries : List (Data × Data)} {result : Data}
    (h : find value entries = .ok (some result)) : result ∈ entries.map Prod.snd := by
  induction entries with
  | nil => cases h
  | cons entry rest ih =>
    obtain ⟨key, found⟩ := entry
    obtain ⟨other, _, h⟩ := except_bind_eq_ok_iff.mp h
    split at h
    next => cases h; simp
    next => exact List.mem_cons_of_mem _ (ih h)

/-- The result of a table, or its default, is one of the literals. -/
theorem mem_literals_of_find {value : Value} {entries : List (Data × Data)}
    {default found : Option Data} {d : Data} (h : find value entries = .ok found)
    (hd : found.or default = some d) : d ∈ (lookup entries default).literals := by
  cases found with
  | none => simp [literals, show default = some d by simpa using hd]
  | some other =>
    have hother : other = d := by simpa using hd
    subst hother
    simp only [literals, List.mem_append]
    exact Or.inl (Or.inr (mem_of_find h))

mutual

/-- The plugs of the value of an expression are plugs of the source value. -/
theorem plugs_of_evaluate (expr : Expr) (hl : ∀ d ∈ expr.literals, d.PlugFree)
    {value result : Value} (h : expr.evaluate value = .ok result) :
    ∀ plug ∈ result.plugs, plug ∈ value.plugs := by
  cases expr with
  | identity =>
    rw [evaluate] at h
    cases h
    exact fun _ hp => hp
  | affine scale offset => simp [plugs_of_mapNumbers (by simpa [evaluate] using h)]
  | exp2 => simp [plugs_of_mapNumbers (by simpa [evaluate] using h)]
  | negation =>
    rw [evaluate] at h
    obtain ⟨x, _, rfl⟩ := except_map_eq_ok_iff.mp h
    simp [Value.bool, Value.plugs]
  | clampMin bound => simp [plugs_of_mapNumbers (by simpa [evaluate] using h)]
  | clampMax bound => simp [plugs_of_mapNumbers (by simpa [evaluate] using h)]
  | lookup entries default =>
    rw [evaluate] at h
    obtain ⟨found, hfound, h⟩ := except_bind_eq_ok_iff.mp h
    split at h
    next d hd => simp [plugs_of_literal (hl d (mem_literals_of_find hfound hd)) h]
    next => cases h
  | equals expected yes no =>
    rw [evaluate] at h
    obtain ⟨other, _, h⟩ := except_bind_eq_ok_iff.mp h
    split at h
    next => simp [plugs_of_literal (hl yes (by simp [literals])) h]
    next => simp [plugs_of_literal (hl no (by simp [literals])) h]
  | greaterThan threshold yes no =>
    rw [evaluate] at h
    obtain ⟨x, _, h⟩ := except_bind_eq_ok_iff.mp h
    split at h
    next => simp [plugs_of_literal (hl yes (by simp [literals])) h]
    next => simp [plugs_of_literal (hl no (by simp [literals])) h]
  | mean =>
    rw [evaluate] at h
    obtain ⟨v, _, rfl⟩ := except_map_eq_ok_iff.mp h
    simp [Value.float, Value.plugs]
  | splat =>
    rw [evaluate] at h
    obtain ⟨x, _, rfl⟩ := except_map_eq_ok_iff.mp h
    simp [Value.vector3, Value.plugs]
  | chain steps =>
    rw [evaluate] at h
    exact plugs_of_evaluateAll steps (by simpa [literals] using hl) h

theorem plugs_of_evaluateAll (steps : List Expr) (hl : ∀ d ∈ literalsOf steps, d.PlugFree)
    {value result : Value} (h : evaluateAll steps value = .ok result) :
    ∀ plug ∈ result.plugs, plug ∈ value.plugs := by
  cases steps with
  | nil =>
    rw [evaluateAll] at h
    cases h
    exact fun _ hp => hp
  | cons step rest =>
    rw [evaluateAll] at h
    split at h
    next next hnext =>
      intro plug hp
      have hfirst : ∀ d ∈ step.literals, d.PlugFree := fun d hd => hl d (by simp [literalsOf, hd])
      have hlater : ∀ d ∈ literalsOf rest, d.PlugFree := fun d hd => hl d (by simp [literalsOf, hd])
      have hrest := plugs_of_evaluateAll rest hlater h plug hp
      exact plugs_of_evaluate step hfirst hnext plug hrest
    next => cases h

end

end Expr

/-- A fixed value without plugs, or an expression whose literals hold none. -/
inductive Converter.PlugFree : Converter → Prop
  | constant {fixed : Value} (h : fixed.plugs = []) : PlugFree (.constant fixed)
  | ofExpr {expr : Expr} (h : ∀ d ∈ expr.literals, d.PlugFree) : PlugFree (.ofExpr expr)

def AttributeRule.PlugFree : AttributeRule → Prop
  | .computed converters => ∀ entry ∈ converters.entries, entry.2.PlugFree
  | _ => True

/-- A rule without steps of its own, and without plug literals. -/
structure Rule.PlugFree {σ : Type} (rule : Rule σ) : Prop where
  before : rule.before = none
  after : rule.after = none
  attributes : ∀ entry ∈ rule.attributes.entries, entry.2.PlugFree

def Sheet.PlugFree {σ : Type} (sheet : Sheet σ) : Prop :=
  ∀ entry ∈ sheet.entries, entry.2.PlugFree

theorem Converter.PlugFree.respects {converter : Converter} (h : converter.PlugFree)
    (Q : Plug → Prop) : converter.Respects fun value => ∀ plug ∈ value.plugs, Q plug := by
  cases h with
  | constant h =>
    intro plug hp
    simp [h] at hp
  | ofExpr h =>
    intro value old new result hv he plug hp
    exact hv plug (Expr.plugs_of_evaluate _ h (except_mapError_eq_ok_iff.mp he) plug hp)

theorem Rule.PlugFree.respects {σ : Type} {rule : Rule σ} (h : rule.PlugFree) (Q : Plug → Prop) :
    rule.Respects fun value => ∀ plug ∈ value.plugs, Q plug := by
  intro entry hentry
  have hrule := h.attributes entry hentry
  cases hr : entry.2 with
  | rename target => trivial
  | fanOut targets => trivial
  | computed converters =>
    rw [hr] at hrule
    exact fun e he => (hrule e he).respects Q

end ShaderMigration
