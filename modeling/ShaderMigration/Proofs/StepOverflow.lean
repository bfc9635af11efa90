import ShaderMigration.Proofs.CompiledSheets
import ShaderMigration.Proofs.ConversionInvariant
import ShaderMigration.Proofs.FiniteNumbers
import ShaderMigration.Proofs.ValueReadBack

namespace ShaderMigration

open Binary64 (isFinite)

namespace Scalar

/-- A payload that is read as a number is that number, or the nearest double of an integer. -/
theorem isFinite_or_mem_of_number? {s : Scalar} {x : Float} (h : s.number? = some x) :
    isFinite x = true ∨ x ∈ s.floats := by
  cases s with
  | float y =>
    obtain rfl := Option.some.inj h
    exact .inr List.mem_cons_self
  | int n | enumeration n =>
    obtain rfl := Option.some.inj h
    exact .inl (Binary64.isFinite_ofInt64 n)
  | bool b =>
    obtain rfl := Option.some.inj h
    cases b <;> exact .inl (by decide +kernel)
  | vector3 | color | string => cases h

/-- A coercion makes no number that is not finite. -/
theorem isFinite_or_mem_of_coerce? {payload result : Scalar} {target : ScalarKind}
    (h : payload.coerce? target = some result) :
    ∀ x ∈ result.floats, isFinite x = true ∨ x ∈ payload.floats := by
  unfold coerce? at h
  split at h
  next =>
    cases h
    exact fun x hx => .inr hx
  next =>
    split at h
    iterate 2
      next =>
        cases h
        exact fun x hx => .inr hx
    iterate 2
      next =>
        obtain ⟨n, _, rfl⟩ := Option.map_eq_some_iff.mp h
        exact List.forall_mem_nil _
    next =>
      obtain ⟨y, hy, rfl⟩ := Option.map_eq_some_iff.mp h
      exact List.forall_mem_singleton.mpr (isFinite_or_mem_of_number? hy)
    iterate 3
      next =>
        obtain ⟨n, _, rfl⟩ := Option.map_eq_some_iff.mp h
        exact List.forall_mem_nil _
    next => cases h

end Scalar

/-- The floats of the value that a literal denotes. -/
def Data.literalFloats (d : Data) : List Float :=
  match Value.ofLiteral d with
  | .ok value => value.floats
  | .error _ => []

namespace Expr

mutual

/-- The steps that an expression takes, with those of its chains in order. -/
def steps : Expr → List Expr
  | chain parts => stepsOf parts
  | step => [step]

def stepsOf : List Expr → List Expr
  | [] => []
  | part :: rest => part.steps ++ stepsOf rest

end

/-- The numbers that are written beside a step. -/
def parameters : Expr → List Float
  | affine scale offset => [scale, offset]
  | clampMin bound => [bound]
  | clampMax bound => [bound]
  | greaterThan threshold _ _ => [threshold]
  | _ => []

def floats (expr : Expr) : List Float :=
  expr.steps.flatMap parameters ++ expr.literals.flatMap Data.literalFloats

/-- What comes out of steps when finite numbers go in: a finite number, or what a step computes from
numbers that arise so. -/
inductive Arises (steps : List Expr) : Float → Prop
  | finite {x : Float} (h : isFinite x = true) : Arises steps x
  | affine {scale offset x : Float} (hstep : .affine scale offset ∈ steps) (hx : Arises steps x) :
      Arises steps (x * scale + offset)
  | exp2 {x : Float} (hstep : .exp2 ∈ steps) (hx : Arises steps x) : Arises steps x.exp2
  | mean {v : Vec3} (hstep : .mean ∈ steps) (hx : Arises steps v.x) (hy : Arises steps v.y)
      (hz : Arises steps v.z) : Arises steps v.mean

section

variable {steps : List Expr} {value result : Value}

theorem arises_of_number (hvalue : ∀ x ∈ value.floats, Arises steps x) {x : Float}
    (h : number value = .ok x) : Arises steps x := by
  unfold number at h
  split at h
  next y hy =>
    cases h
    obtain ⟨payload, hpayload, hnumber⟩ := Option.bind_eq_some_iff.mp hy
    rcases Scalar.isFinite_or_mem_of_number? hnumber with hfinite | hmem
    · exact .finite hfinite
    · cases value with
      | scalar s =>
        obtain rfl := Option.some.inj hpayload
        exact hvalue x hmem
      | connection | array => cases hpayload
  next => cases h

theorem arises_of_components (hvalue : ∀ x ∈ value.floats, Arises steps x) {v : Vec3}
    (h : components value = .ok v) : ∀ x ∈ [v.x, v.y, v.z], Arises steps x := by
  unfold components at h
  split at h
  next => exact Except.ok.inj h ▸ hvalue
  next => exact Except.ok.inj h ▸ hvalue
  next => cases h

theorem arises_of_mapNumbers {f : Float → Float} (hf : ∀ x, Arises steps x → Arises steps (f x))
    (hvalue : ∀ x ∈ value.floats, Arises steps x) (h : mapNumbers f value = .ok result) :
    ∀ x ∈ result.floats, Arises steps x := by
  have hmap : ∀ v : Vec3, (∀ x ∈ [v.x, v.y, v.z], Arises steps x) →
      ∀ x ∈ [f v.x, f v.y, f v.z], Arises steps x := by
    simp only [List.forall_mem_cons]
    exact fun v h => ⟨hf _ h.1, hf _ h.2.1, hf _ h.2.2.1, List.forall_mem_nil _⟩
  unfold mapNumbers at h
  split at h
  next v => exact Except.ok.inj h ▸ hmap v hvalue
  next c => exact Except.ok.inj h ▸ hmap c.toVec3 hvalue
  next =>
    obtain ⟨x, hx, rfl⟩ := except_map_eq_ok_iff.mp h
    exact List.forall_mem_singleton.mpr (hf x (arises_of_number hvalue hx))

theorem arises_of_literal {d : Data} (hd : ∀ x ∈ d.literalFloats, isFinite x = true)
    (h : literal d = .ok result) : ∀ x ∈ result.floats, Arises steps x := by
  have hread : Value.ofLiteral d = .ok result := except_mapError_eq_ok_iff.mp h
  intro x hx
  refine .finite (hd x ?_)
  rwa [Data.literalFloats, hread]

mutual

/-- The numbers in the value of an expression arise by its steps, if those of the source value do. -/
theorem arises_of_evaluate (expr : Expr)
    (hsteps : ∀ step ∈ expr.steps, step ∈ steps ∧ ∀ x ∈ step.parameters, isFinite x = true)
    (hliterals : ∀ d ∈ expr.literals, ∀ x ∈ d.literalFloats, isFinite x = true)
    {value result : Value} (hvalue : ∀ x ∈ value.floats, Arises steps x)
    (h : expr.evaluate value = .ok result) : ∀ x ∈ result.floats, Arises steps x := by
  cases expr with
  | identity =>
    rw [evaluate] at h
    cases h
    exact hvalue
  | affine scale offset =>
    rw [evaluate] at h
    exact arises_of_mapNumbers (fun x => .affine (hsteps _ List.mem_cons_self).1) hvalue h
  | exp2 =>
    rw [evaluate] at h
    exact arises_of_mapNumbers (fun x => .exp2 (hsteps _ List.mem_cons_self).1) hvalue h
  | negation =>
    rw [evaluate] at h
    obtain ⟨x, _, rfl⟩ := except_map_eq_ok_iff.mp h
    exact List.forall_mem_nil _
  | clampMin bound =>
    -- what a bound takes the place of is a number that is written in the sheet
    rw [evaluate] at h
    refine arises_of_mapNumbers (fun x hx => ?_) hvalue h
    rcases Binary64.max_cases x bound with heq | heq
    · exact heq.symm ▸ hx
    · exact heq.symm ▸ .finite ((hsteps _ List.mem_cons_self).2 bound List.mem_cons_self)
  | clampMax bound =>
    rw [evaluate] at h
    refine arises_of_mapNumbers (fun x hx => ?_) hvalue h
    rcases Binary64.min_cases x bound with heq | heq
    · exact heq.symm ▸ hx
    · exact heq.symm ▸ .finite ((hsteps _ List.mem_cons_self).2 bound List.mem_cons_self)
  | lookup entries default =>
    rw [evaluate] at h
    obtain ⟨found, hfound, h⟩ := except_bind_eq_ok_iff.mp h
    split at h
    next d hd => exact arises_of_literal (hliterals d (mem_literals_of_find hfound hd)) h
    next => cases h
  | equals expected yes no =>
    rw [evaluate] at h
    obtain ⟨other, _, h⟩ := except_bind_eq_ok_iff.mp h
    split at h
    next => exact arises_of_literal (hliterals yes (by simp [literals])) h
    next => exact arises_of_literal (hliterals no (by simp [literals])) h
  | greaterThan threshold yes no =>
    rw [evaluate] at h
    obtain ⟨x, _, h⟩ := except_bind_eq_ok_iff.mp h
    split at h
    next => exact arises_of_literal (hliterals yes (by simp [literals])) h
    next => exact arises_of_literal (hliterals no (by simp [literals])) h
  | mean =>
    rw [evaluate] at h
    obtain ⟨v, hv, rfl⟩ := except_map_eq_ok_iff.mp h
    obtain ⟨hx, hy, hz, _⟩ := by
      simpa only [List.forall_mem_cons] using arises_of_components hvalue hv
    exact List.forall_mem_singleton.mpr (.mean (hsteps _ List.mem_cons_self).1 hx hy hz)
  | splat =>
    rw [evaluate] at h
    obtain ⟨x, hx, rfl⟩ := except_map_eq_ok_iff.mp h
    have harises := arises_of_number hvalue hx
    exact List.forall_mem_cons.mpr ⟨harises, List.forall_mem_cons.mpr ⟨harises,
      List.forall_mem_singleton.mpr harises⟩⟩
  | chain parts =>
    rw [evaluate] at h
    rw [Expr.steps] at hsteps
    rw [literals] at hliterals
    exact arises_of_evaluateAll parts hsteps hliterals hvalue h

theorem arises_of_evaluateAll (parts : List Expr)
    (hsteps : ∀ step ∈ stepsOf parts, step ∈ steps ∧ ∀ x ∈ step.parameters, isFinite x = true)
    (hliterals : ∀ d ∈ literalsOf parts, ∀ x ∈ d.literalFloats, isFinite x = true)
    {value result : Value} (hvalue : ∀ x ∈ value.floats, Arises steps x)
    (h : evaluateAll parts value = .ok result) : ∀ x ∈ result.floats, Arises steps x := by
  cases parts with
  | nil =>
    rw [evaluateAll] at h
    cases h
    exact hvalue
  | cons part rest =>
    rw [evaluateAll] at h
    rw [stepsOf, List.forall_mem_append] at hsteps
    rw [literalsOf, List.forall_mem_append] at hliterals
    split at h
    next next hnext =>
      have hfirst := arises_of_evaluate part hsteps.1 hliterals.1 hvalue hnext
      exact arises_of_evaluateAll rest hsteps.2 hliterals.2 hfirst h
    next => cases h

end

end

end Expr

namespace ComputedDocument

def steps : ComputedDocument → List Expr
  | constant _ => []
  | expr e => e.steps

def floats : ComputedDocument → List Float
  | constant literal => literal.literalFloats
  | expr e => e.floats

end ComputedDocument

namespace SheetDocument

def steps (doc : SheetDocument) : List Expr := doc.computations.flatMap ComputedDocument.steps

def floats (doc : SheetDocument) : List Float := doc.computations.flatMap ComputedDocument.floats

def Finite (doc : SheetDocument) : Prop := ∀ x ∈ doc.floats, isFinite x = true

instance (doc : SheetDocument) : Decidable doc.Finite := inferInstanceAs (Decidable (∀ _ ∈ _, _))

variable {doc : SheetDocument}

/-- What a converter of a document makes of numbers that arise by its steps arises by them too. -/
theorem respects_of_compile (hfinite : doc.Finite) {computation : ComputedDocument}
    (hmem : computation ∈ doc.computations) {source : String} {converter : Converter}
    (h : computation.compile source = .ok converter) :
    converter.Respects fun value => ∀ x ∈ value.floats, Expr.Arises doc.steps x := by
  have hfloats : ∀ x ∈ computation.floats, isFinite x = true := fun x hx =>
    hfinite x (List.mem_flatMap.mpr ⟨computation, hmem, hx⟩)
  cases computation with
  | constant literal =>
    rw [ComputedDocument.compile] at h
    split at h
    next value hvalue =>
      cases h
      intro x hx
      refine .finite (hfloats x ?_)
      rwa [ComputedDocument.floats, Data.literalFloats, hvalue]
    next => cases h
  | expr e =>
    cases h
    obtain ⟨hparameters, hliterals⟩ := List.forall_mem_append.mp hfloats
    intro value old new result hvalue heval
    refine Expr.arises_of_evaluate e ?_ ?_ hvalue (except_mapError_eq_ok_iff.mp heval)
    · intro step hstep
      exact ⟨List.mem_flatMap.mpr ⟨.expr e, hmem, hstep⟩,
        fun x hx => hparameters x (List.mem_flatMap.mpr ⟨step, hstep, hx⟩)⟩
    · exact fun d hd x hx => hliterals x (List.mem_flatMap.mpr ⟨d, hd, hx⟩)

theorem tame_of_compile {σ : Type} (hfinite : doc.Finite) {transcoder : Option Texture.Transcoder}
    {sheet : Sheet σ} (h : doc.compile transcoder = .ok sheet) :
    ∀ entry ∈ sheet.entries, Migrator.Tame
      (fun _ _ value => ∀ x ∈ value.floats, Expr.Arises doc.steps x) entry.2 := by
  intro entry he
  have hrule := compiledFrom_of_compile h entry he
  refine ⟨hrule.before, hrule.after, fun _ _ named hn => ?_⟩
  have hnamed := hrule.attributes named hn
  cases hattribute : named.2 with
  | rename | fanOut => trivial
  | computed converters =>
    rw [hattribute] at hnamed
    intro converter hc
    obtain ⟨computation, hmem, source, hcompile⟩ := hnamed converter hc
    exact respects_of_compile hfinite hmem hcompile

end SheetDocument

end ShaderMigration
