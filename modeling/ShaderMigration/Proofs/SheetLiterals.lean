import ShaderMigration.Proofs.CompiledSheets
import ShaderMigration.Proofs.PlugFreeSheets

namespace ShaderMigration

theorem exists_mapM_eq_ok_iff {ε α β : Type} {f : α → Except ε β} {items : List α} :
    (∃ results, items.mapM f = .ok results) ↔ ∀ a ∈ items, ∃ b, f a = .ok b := by
  induction items with
  | nil => exact iff_of_true ⟨[], rfl⟩ (List.forall_mem_nil _)
  | cons a rest ih =>
    simp only [List.mapM_cons, List.forall_mem_cons, ← ih, except_bind_eq_ok_iff]
    constructor
    · intro h
      obtain ⟨_, b, hb, others, hothers, _⟩ := h
      exact ⟨⟨b, hb⟩, others, hothers⟩
    · intro h
      obtain ⟨⟨b, hb⟩, others, hothers⟩ := h
      exact ⟨_, b, hb, others, hothers, rfl⟩

theorem exists_map_eq_ok_iff {ε α β : Type} {x : Except ε α} {f : α → β} :
    (∃ b, x.map f = .ok b) ↔ ∃ a, x = .ok a := by
  cases x <;> simp [Except.map]

namespace Expr

variable {expr : Expr} {value : Value} {d : Data}

/-- The literals that are read when an expression is evaluated at a value. -/
inductive Consults : Expr → Value → Data → Prop
  | key (key result : Data) (rest : List (Data × Data)) (default : Option Data) (value : Value) :
      Consults (lookup ((key, result) :: rest) default) value key
  | hit {key result : Data} {rest : List (Data × Data)} {default : Option Data}
      {value other : Value} (hkey : literal key = .ok other) (hsame : value.sameValue other = true) :
      Consults (lookup ((key, result) :: rest) default) value result
  | miss {key result d : Data} {rest : List (Data × Data)} {default : Option Data}
      {value other : Value} (hkey : literal key = .ok other) (hother : value.sameValue other = false)
      (hrest : Consults (lookup rest default) value d) :
      Consults (lookup ((key, result) :: rest) default) value d
  | default (d : Data) (value : Value) : Consults (lookup [] (some d)) value d
  | expected (expected yes no : Data) (value : Value) : Consults (equals expected yes no) value expected
  | equal {expected : Data} {yes no : Data} {value other : Value}
      (hexpected : literal expected = .ok other) :
      Consults (equals expected yes no) value (if value.sameValue other then yes else no)
  | greater {threshold x : Float} {yes no : Data} {value : Value} (hnumber : number value = .ok x) :
      Consults (greaterThan threshold yes no) value (if threshold < x then yes else no)
  | first {step : Expr} {value : Value} {d : Data} (rest : List Expr) (hfirst : Consults step value d) :
      Consults (chain (step :: rest)) value d
  | later {step : Expr} {rest : List Expr} {value reached : Value} {d : Data}
      (hreached : step.evaluate value = .ok reached) (hlater : Consults (chain rest) reached d) :
      Consults (chain (step :: rest)) value d

theorem evaluate_lookup_cons (key result : Data) (rest : List (Data × Data)) (default : Option Data) :
    (lookup ((key, result) :: rest) default).evaluate value = (do
      if value.sameValue (← literal key) then literal result
      else (lookup rest default).evaluate value) := by
  rw [evaluate, evaluate, find]
  cases literal key with
  | error e => rfl
  | ok other => cases hsame : value.sameValue other <;> simp [hsame, bind, Except.bind, pure, Except.pure]

theorem evaluate_chain_cons (step : Expr) (rest : List Expr) :
    (chain (step :: rest)).evaluate value =
      step.evaluate value >>= (chain rest).evaluate := by
  rw [evaluate, evaluateAll]
  cases step.evaluate value with
  | error e => rfl
  | ok next =>
    change evaluateAll rest next = (chain rest).evaluate next
    rw [evaluate]

theorem literal_eq_error_iff {cause : LiteralError} :
    literal d = .error (.literal cause) ↔ Value.ofLiteral d = .error cause := by
  simp [literal, except_mapError_eq_error_iff]

theorem Consults.mem (h : expr.Consults value d) : d ∈ expr.literals := by
  induction h with
  | key | default | expected => simp [literals]
  | hit => simp [literals]
  | miss hkey hother hrest ih =>
    simp only [literals, List.mem_append, List.map_cons, List.mem_cons] at ih ⊢
    rcases ih with (hkeys | hresults) | hdefault
    · exact .inl (.inl (.inr hkeys))
    · exact .inl (.inr (.inr hresults))
    · exact .inr hdefault
  | equal => simp only [literals]; split <;> simp
  | greater => simp only [literals]; split <;> simp
  | first rest hfirst ih =>
    rw [literals, literalsOf]
    exact List.mem_append_left _ ih
  | later hreached hlater ih =>
    rw [literals] at ih
    rw [literals, literalsOf]
    exact List.mem_append_right _ ih

theorem number_ne_literal {cause : LiteralError} : number value ≠ .error (.literal cause) := by
  unfold number
  split <;> nofun

theorem components_ne_literal {cause : LiteralError} : components value ≠ .error (.literal cause) := by
  unfold components
  split <;> nofun

theorem mapNumbers_ne_literal {f : Float → Float} {cause : LiteralError} :
    mapNumbers f value ≠ .error (.literal cause) := by
  unfold mapNumbers
  split
  · nofun
  · nofun
  · exact fun h => number_ne_literal (except_map_eq_error_iff.mp h)

/-- A literal that is consulted and is not a value makes the evaluation fail. -/
theorem evaluate_of_consults {cause : LiteralError} (h : expr.Consults value d)
    (hd : Value.ofLiteral d = .error cause) : expr.evaluate value = .error (.literal cause) := by
  have hliteral : literal d = .error (.literal cause) := literal_eq_error_iff.mpr hd
  induction h with
  | key => rw [evaluate_lookup_cons, hliteral]; rfl
  | hit hkey hsame =>
    rw [evaluate_lookup_cons, hkey]
    change (if _ = true then _ else _) = _
    rw [if_pos hsame, hliteral]
  | miss hkey hother hrest ih =>
    rw [evaluate_lookup_cons, hkey]
    change (if _ = true then _ else _) = _
    rw [if_neg (by rw [hother]; exact Bool.false_ne_true), ih hd hliteral]
  | default =>
    rw [evaluate]
    exact hliteral
  | expected => rw [evaluate, hliteral]; rfl
  | equal hexpected =>
    rw [evaluate, hexpected]
    rw [← hliteral]
    change (if _ = true then _ else _) = _
    split <;> rfl
  | greater hnumber =>
    rw [evaluate, hnumber, ← hliteral]
    change (if _ then _ else _) = _
    split <;> rfl
  | first rest hfirst ih => rw [evaluate_chain_cons, ih hd hliteral]; rfl
  | later hreached hlater ih => rw [evaluate_chain_cons, hreached]; exact ih hd hliteral

theorem consults_of_lookup {cause : LiteralError} {entries : List (Data × Data)}
    {default : Option Data} (h : (lookup entries default).evaluate value = .error (.literal cause)) :
    ∃ d, (lookup entries default).Consults value d ∧ Value.ofLiteral d = .error cause := by
  induction entries with
  | nil =>
    cases default with
    | none =>
      rw [evaluate] at h
      cases h
    | some d =>
      rw [evaluate] at h
      exact ⟨d, .default d value, literal_eq_error_iff.mp h⟩
  | cons entry rest ih =>
    obtain ⟨key, result⟩ := entry
    rw [evaluate_lookup_cons] at h
    rcases except_bind_eq_error_iff.mp h with hkey | ⟨other, hkey, h⟩
    · exact ⟨key, .key key result rest default value, literal_eq_error_iff.mp hkey⟩
    · cases hsame : value.sameValue other with
      | true =>
        rw [hsame, if_pos rfl] at h
        exact ⟨result, .hit hkey hsame, literal_eq_error_iff.mp h⟩
      | false =>
        rw [hsame, if_neg Bool.false_ne_true] at h
        obtain ⟨d, hconsults, hd⟩ := ih h
        exact ⟨d, .miss hkey hsame hconsults, hd⟩

mutual

/-- An evaluation that fails at a literal consults it. -/
theorem consults_of_evaluate (expr : Expr) {value : Value} {cause : LiteralError}
    (h : expr.evaluate value = .error (.literal cause)) :
    ∃ d, expr.Consults value d ∧ Value.ofLiteral d = .error cause := by
  cases expr with
  | identity => rw [evaluate] at h; cases h
  | affine | exp2 | clampMin | clampMax =>
    rw [evaluate] at h
    exact absurd h mapNumbers_ne_literal
  | negation | splat =>
    rw [evaluate] at h
    exact absurd (except_map_eq_error_iff.mp h) number_ne_literal
  | mean =>
    rw [evaluate] at h
    exact absurd (except_map_eq_error_iff.mp h) components_ne_literal
  | lookup entries default => exact consults_of_lookup h
  | equals expected yes no =>
    rw [evaluate] at h
    rcases except_bind_eq_error_iff.mp h with hexpected | ⟨other, hexpected, h⟩
    · exact ⟨expected, .expected expected yes no value, literal_eq_error_iff.mp hexpected⟩
    · refine ⟨_, .equal hexpected, literal_eq_error_iff.mp ?_⟩
      rw [← h]
      split <;> rfl
  | greaterThan threshold yes no =>
    rw [evaluate] at h
    rcases except_bind_eq_error_iff.mp h with hnumber | ⟨x, hnumber, h⟩
    · exact absurd hnumber number_ne_literal
    · refine ⟨_, .greater hnumber, literal_eq_error_iff.mp ?_⟩
      rw [← h]
      split <;> rfl
  | chain steps => exact consults_of_evaluateAll steps (by rwa [evaluate] at h)

theorem consults_of_evaluateAll (steps : List Expr) {value : Value} {cause : LiteralError}
    (h : evaluateAll steps value = .error (.literal cause)) :
    ∃ d, (chain steps).Consults value d ∧ Value.ofLiteral d = .error cause := by
  cases steps with
  | nil => rw [evaluateAll] at h; cases h
  | cons step rest =>
    rw [evaluateAll] at h
    split at h
    next reached hreached =>
      obtain ⟨d, hconsults, hd⟩ := consults_of_evaluateAll rest h
      exact ⟨d, .later hreached hconsults, hd⟩
    next e hfirst =>
      cases h
      obtain ⟨d, hconsults, hd⟩ := consults_of_evaluate step hfirst
      exact ⟨d, .first rest hconsults, hd⟩

end

/-- An evaluation fails at a literal exactly when it consults one that is not a value. -/
theorem evaluate_eq_literal_error_iff {cause : LiteralError} :
    expr.evaluate value = .error (.literal cause) ↔
      ∃ d, expr.Consults value d ∧ Value.ofLiteral d = .error cause := by
  constructor
  · exact consults_of_evaluate expr
  · intro h
    obtain ⟨d, hconsults, hd⟩ := h
    exact evaluate_of_consults hconsults hd

end Expr

namespace ComputedDocument

/-- A computation whose constant is a value; nothing is asked of an expression. -/
def ConstantIsValue : ComputedDocument → Prop
  | constant literal => ∃ value, Value.ofLiteral literal = .ok value
  | expr _ => True

theorem exists_compile_iff {source : String} {d : ComputedDocument} :
    (∃ converter, d.compile source = .ok converter) ↔ d.ConstantIsValue := by
  cases d with
  | expr e => exact iff_of_true ⟨_, rfl⟩ trivial
  | constant literal =>
    cases hliteral : Value.ofLiteral literal with
    | ok value => exact iff_of_true ⟨.constant value, by simp [compile, hliteral]⟩ ⟨value, hliteral⟩
    | error cause => simp [compile, ConstantIsValue, hliteral]

end ComputedDocument

theorem AttributeDocument.exists_compile_iff {source : String} {d : AttributeDocument} :
    (∃ rule, d.compile source = .ok rule) ↔
      ∀ computation ∈ d.computations, computation.ConstantIsValue := by
  cases d with
  | rename | fanOut => exact iff_of_true ⟨_, rfl⟩ (List.forall_mem_nil _)
  | computed targets =>
    unfold compile
    rw [exists_map_eq_ok_iff, compileEntries_eq_mapM, exists_mapM_eq_ok_iff]
    simp only [exists_map_eq_ok_iff, ComputedDocument.exists_compile_iff, computations, Table.values,
      List.forall_mem_map]

namespace RuleDocument

theorem exists_compileAttributes_iff {source : String} {pairs : List (String × AttributeDocument)} :
    (∃ rules, compileAttributes source pairs = .ok rules) ↔
      ∀ pair ∈ pairs, ∀ computation ∈ pair.2.computations, computation.ConstantIsValue := by
  rw [compileAttributes_eq_mapM, exists_mapM_eq_ok_iff]
  simp only [exists_map_eq_ok_iff, AttributeDocument.exists_compile_iff]

/-- What a rule of a document must be like to be compiled. -/
structure Compiles (rule : RuleDocument) (transcoder : Option Texture.Transcoder) : Prop where
  oneTarget : ¬ (rule.target.isSome = true ∧ rule.inPlace = true)
  transcoder : rule.transcode.isSome = true → transcoder.isSome = true
  constants : ∀ computation ∈ rule.computations, computation.ConstantIsValue

theorem exists_compileJob_iff {rule : RuleDocument} {transcoder : Option Texture.Transcoder} :
    (∃ job, rule.compileJob transcoder = .ok job) ↔
      (rule.transcode.isSome = true → transcoder.isSome = true) := by
  unfold compileJob
  cases rule.transcode <;> cases transcoder <;> simp

theorem exists_compile_iff {σ : Type} {rule : RuleDocument} {transcoder : Option Texture.Transcoder} :
    (∃ compiled : Rule σ, rule.compile transcoder = .ok compiled) ↔ rule.Compiles transcoder := by
  have hconstants : (∃ rules, compileAttributes rule.source rule.attributes.entries = .ok rules) ↔
      ∀ computation ∈ rule.computations, computation.ConstantIsValue := by
    rw [exists_compileAttributes_iff]
    simp only [computations, Table.values, List.forall_mem_flatMap, List.forall_mem_map]
  unfold compile
  dsimp only
  by_cases hboth : (rule.target.isSome && rule.inPlace) = true
  · rw [if_pos hboth]
    refine iff_of_false ?_ fun h => h.oneTarget ((Bool.and_eq_true _ _).mp hboth)
    rintro ⟨_, h⟩
    cases h
  · rw [if_neg hboth]
    constructor
    · rintro ⟨_, h⟩
      obtain ⟨attributes, hattributes, h⟩ := except_bind_eq_ok_iff.mp h
      obtain ⟨job, hjob, _⟩ := except_bind_eq_ok_iff.mp h
      refine ⟨fun hh => hboth ((Bool.and_eq_true _ _).mpr hh), exists_compileJob_iff.mp ⟨job, hjob⟩, ?_⟩
      exact hconstants.mp ⟨attributes, hattributes⟩
    · intro h
      obtain ⟨attributes, hattributes⟩ := hconstants.mpr h.constants
      obtain ⟨job, hjob⟩ := exists_compileJob_iff.mpr h.transcoder
      rw [hattributes, hjob]
      exact ⟨_, rfl⟩

end RuleDocument

/-- Which documents are compiled: the constants are read, the literals of expressions are not. -/
theorem SheetDocument.exists_compile_iff {σ : Type} {doc : SheetDocument}
    {transcoder : Option Texture.Transcoder} :
    (∃ sheet : Sheet σ, doc.compile transcoder = .ok sheet) ↔
      ∀ rule ∈ doc.rules, rule.Compiles transcoder := by
  have hrules : ∀ (rules : List RuleDocument) (sheet : Sheet σ),
      (∃ final, compileRules transcoder rules sheet = .ok final) ↔
        ∀ rule ∈ rules, rule.Compiles transcoder := by
    intro rules
    induction rules with
    | nil => exact fun sheet => iff_of_true ⟨sheet, rfl⟩ (List.forall_mem_nil _)
    | cons rule rest ih =>
      intro sheet
      simp only [compileRules, except_bind_eq_ok_iff, List.forall_mem_cons]
      have hrule : (∃ compiled : Rule σ, rule.compile transcoder = .ok compiled) ↔
          rule.Compiles transcoder := RuleDocument.exists_compile_iff
      rw [← hrule]
      constructor
      · rintro ⟨final, compiled, hcompiled, hrest⟩
        exact ⟨⟨compiled, hcompiled⟩, (ih _).mp ⟨final, hrest⟩⟩
      · rintro ⟨⟨compiled, hcompiled⟩, hrest⟩
        obtain ⟨final, hfinal⟩ := (ih (sheet.insert rule.source compiled)).mpr hrest
        exact ⟨final, compiled, hcompiled, hfinal⟩
  exact hrules doc.rules {}

/-- A document is compiled if its rules name at most one kind of result, have what they need to
transcode, and its constants are values.  Each converter of the sheet is such a constant or an
expression of the document; and an expression fails because of the document exactly when the value
leads it to a literal that is not a value. -/
theorem literals_of_compiled {σ : Type} (doc : SheetDocument) (transcoder : Option Texture.Transcoder) :
    ((∃ sheet : Sheet σ, doc.compile transcoder = .ok sheet) ↔
      ∀ rule ∈ doc.rules, rule.Compiles transcoder) ∧
    ∀ sheet : Sheet σ, doc.compile transcoder = .ok sheet → ∀ entry ∈ sheet.entries,
      ∀ named ∈ entry.2.attributes.entries, ∀ converters, named.2 = .computed converters →
        ∀ computed ∈ converters.entries,
          (∃ literal fixed, .constant literal ∈ doc.computations ∧
            Value.ofLiteral literal = .ok fixed ∧ computed.2 = .constant fixed) ∨
          ∃ expr, .expr expr ∈ doc.computations ∧ computed.2 = .ofExpr expr ∧
            ∀ value cause, expr.evaluate value = .error (.literal cause) ↔
              ∃ d ∈ expr.literals, expr.Consults value d ∧ Value.ofLiteral d = .error cause := by
  refine ⟨SheetDocument.exists_compile_iff, ?_⟩
  intro sheet hsheet entry hentry named hnamed converters hconverters computed hcomputed
  have hfrom := (SheetDocument.compiledFrom_of_compile hsheet entry hentry).attributes named hnamed
  rw [hconverters] at hfrom
  obtain ⟨computation, hmem, source, hcompile⟩ := hfrom computed hcomputed
  cases computation with
  | constant literal =>
    left
    obtain ⟨fixed, hfixed⟩ := ComputedDocument.exists_compile_iff.mp ⟨_, hcompile⟩
    rw [ComputedDocument.compile, hfixed] at hcompile
    exact ⟨literal, fixed, hmem, hfixed, (Except.ok.inj hcompile).symm⟩
  | expr e =>
    right
    refine ⟨e, hmem, (Except.ok.inj hcompile).symm, fun value cause => ?_⟩
    rw [Expr.evaluate_eq_literal_error_iff]
    constructor
    · rintro ⟨d, hconsults, hd⟩
      exact ⟨d, hconsults.mem, hconsults, hd⟩
    · rintro ⟨d, _, hconsults, hd⟩
      exact ⟨d, hconsults, hd⟩

/-- A sheet for meshes that computes whether they are subdivided. -/
def meshSheet (enabled : ComputedDocument) : SheetDocument where
  rules :=
    [{ source := "mesh"
       inPlace := true
       attributes := .ofPairs
        [("aiSubdivType", .computed (.ofPairs [("rsEnableSubdivision", enabled)]))] }]

/-- Whether the kind of subdivision is another one than none. -/
def isSubdivided (otherwise : Data) : ComputedDocument := .expr (.equals (.int 0) (.bool false) otherwise)

/-- With values in both branches the sheet is compiled, and no mesh makes it fail at a literal. -/
theorem meshSheet_compiled : ∃ sheet : Sheet LiveScene,
    (meshSheet (isSubdivided (.bool true))).compile none = .ok sheet ∧
      ∀ entry ∈ sheet.entries, ∀ named ∈ entry.2.attributes.entries, ∀ converters,
        named.2 = .computed converters → ∀ computed ∈ converters.entries,
          ∃ expr, computed.2 = .ofExpr expr ∧
            ∀ value cause, expr.evaluate value ≠ .error (.literal cause) := by
  have hcomputations : (meshSheet (isSubdivided (.bool true))).computations =
      [isSubdivided (.bool true)] := rfl
  have hcompiles : ∀ rule ∈ (meshSheet (isSubdivided (.bool true))).rules, rule.Compiles none := by
    intro rule hrule
    obtain rfl := List.mem_singleton.mp hrule
    refine ⟨by decide, by decide, fun computation hcomputation => ?_⟩
    obtain rfl := List.mem_singleton.mp hcomputation
    trivial
  obtain ⟨hiff, hliterals⟩ := literals_of_compiled (meshSheet (isSubdivided (.bool true))) none
  obtain ⟨sheet, hsheet⟩ := hiff.mpr hcompiles
  refine ⟨sheet, hsheet, fun entry hentry named hnamed converters hconverters computed hcomputed => ?_⟩
  rcases hliterals sheet hsheet entry hentry named hnamed converters hconverters computed hcomputed
    with ⟨literal, _, hmem, _⟩ | ⟨expr, hmem, hexpr, hfails⟩
  · rw [hcomputations] at hmem
    cases List.mem_singleton.mp hmem
  · rw [hcomputations] at hmem
    obtain rfl := ComputedDocument.expr.inj (List.mem_singleton.mp hmem)
    refine ⟨_, hexpr, fun value cause h => ?_⟩
    obtain ⟨d, hd, _, hrefused⟩ := (hfails value cause).mp h
    simp only [Expr.literals, List.mem_cons, List.not_mem_nil, or_false] at hd
    rcases hd with rfl | rfl | rfl <;> cases hrefused

/-- A branch without a value is compiled, where such a constant is refused, and fails at the meshes
that come to it. -/
theorem meshSheet_unchecked :
    (∃ sheet : Sheet LiveScene, (meshSheet (isSubdivided .null)).compile none = .ok sheet) ∧
    (meshSheet (.constant .null)).compile none =
      (.error (.sheet (.literal "mesh" .null)) : Except MigrationError (Sheet LiveScene)) ∧
    (Expr.equals (.int 0) (.bool false) .null).evaluate (.int 1) = .error (.literal .null) := by
  have hother : (Value.int 1).sameValue (.int 0) = false := by decide +kernel
  refine ⟨⟨_, rfl⟩, rfl, ?_⟩
  change (if (Value.int 1).sameValue (.int 0) = true then Expr.literal (.bool false)
    else Expr.literal .null) = _
  rw [hother]
  rfl

end ShaderMigration
