import ShaderMigration.Proofs.SceneEdits
import ShaderMigration.Sheet.Document

namespace ShaderMigration

theorem exists_of_mem_mapM {ε α β : Type} {f : α → Except ε β} {items : List α} {results : List β}
    (h : items.mapM f = .ok results) : ∀ b ∈ results, ∃ a ∈ items, f a = .ok b := by
  induction items generalizing results with
  | nil =>
    cases h
    exact List.forall_mem_nil _
  | cons a rest ih =>
    rw [List.mapM_cons] at h
    obtain ⟨b, hb, h⟩ := except_bind_eq_ok_iff.mp h
    obtain ⟨others, hothers, h⟩ := except_bind_eq_ok_iff.mp h
    cases h
    refine List.forall_mem_cons.mpr ⟨⟨a, List.mem_cons_self, hb⟩, fun other hother => ?_⟩
    obtain ⟨found, hfound, hf⟩ := ih hothers other hother
    exact ⟨found, List.mem_cons_of_mem _ hfound, hf⟩

namespace Entries

variable {κ α : Type} [DecidableEq κ]

theorem mem_of_mem_put {key : κ} {value : α} {entries : List (κ × α)} {entry : κ × α}
    (h : entry ∈ put key value entries) : entry = (key, value) ∨ entry ∈ entries := by
  induction entries with
  | nil => exact .inl (List.mem_singleton.mp h)
  | cons first rest ih =>
    unfold put at h
    split at h
    next hkey =>
      rcases List.mem_cons.mp h with rfl | hrest
      · exact .inl (hkey ▸ rfl)
      · exact .inr (List.mem_cons_of_mem _ hrest)
    next =>
      rcases List.mem_cons.mp h with rfl | hput
      · exact .inr List.mem_cons_self
      · exact (ih hput).imp_right (List.mem_cons_of_mem _)

theorem mem_of_mem_foldl_put {pairs entries : List (κ × α)} {entry : κ × α}
    (h : entry ∈ pairs.foldl (fun found pair => put pair.1 pair.2 found) entries) :
    entry ∈ pairs ∨ entry ∈ entries := by
  induction pairs generalizing entries with
  | nil => exact .inr h
  | cons pair rest ih =>
    rcases ih h with hrest | hput
    · exact .inl (List.mem_cons_of_mem _ hrest)
    · rcases mem_of_mem_put hput with rfl | hentries
      · exact .inl List.mem_cons_self
      · exact .inr hentries

theorem mem_of_mem_ofPairs {pairs : List (κ × α)} {entry : κ × α} (h : entry ∈ ofPairs pairs) :
    entry ∈ pairs := (mem_of_mem_foldl_put h).resolve_right List.not_mem_nil

end Entries

namespace AttributeDocument

/-- The computations for the targets of an attribute. -/
def computations : AttributeDocument → List ComputedDocument
  | computed targets => targets.values
  | _ => []

theorem compileEntries_eq_mapM (source : String) (pairs : List (String × ComputedDocument)) :
    compileEntries source pairs =
      pairs.mapM fun pair => (pair.2.compile source).map fun converter => (pair.1, converter) := by
  induction pairs with
  | nil => rfl
  | cons pair rest ih =>
    rw [compileEntries, List.mapM_cons, ih]
    cases pair.2.compile source <;> rfl

end AttributeDocument

/-- Every converter of the rule is compiled from one of the computations. -/
def AttributeRule.CompiledFrom (computations : List ComputedDocument) : AttributeRule → Prop
  | .computed converters => ∀ entry ∈ converters.entries,
      ∃ computation ∈ computations, ∃ source, computation.compile source = .ok entry.2
  | _ => True

theorem AttributeDocument.compiledFrom_of_compile {source : String} {d : AttributeDocument}
    {rule : AttributeRule} (h : d.compile source = .ok rule) : rule.CompiledFrom d.computations := by
  cases d with
  | rename | fanOut =>
    cases h
    trivial
  | computed targets =>
    obtain ⟨entries, hentries, rfl⟩ := except_map_eq_ok_iff.mp h
    intro entry he
    rw [compileEntries_eq_mapM] at hentries
    obtain ⟨pair, hpair, hentry⟩ := exists_of_mem_mapM hentries entry (Entries.mem_of_mem_ofPairs he)
    obtain ⟨converter, hcompile, rfl⟩ := except_map_eq_ok_iff.mp hentry
    exact ⟨pair.2, List.mem_map.mpr ⟨pair, hpair, rfl⟩, source, hcompile⟩

theorem AttributeRule.CompiledFrom.mono {computations more : List ComputedDocument}
    {rule : AttributeRule} (h : rule.CompiledFrom computations)
    (hsub : ∀ computation ∈ computations, computation ∈ more) : rule.CompiledFrom more := by
  cases rule with
  | rename | fanOut => trivial
  | computed converters =>
    intro entry he
    obtain ⟨computation, hmem, hcompile⟩ := h entry he
    exact ⟨computation, hsub computation hmem, hcompile⟩

/-- A rule without steps whose converters are compiled from the computations. -/
structure Rule.CompiledFrom {σ : Type} (computations : List ComputedDocument) (rule : Rule σ) :
    Prop where
  before : rule.before = none
  after : rule.after = none
  attributes : ∀ entry ∈ rule.attributes.entries, entry.2.CompiledFrom computations

namespace RuleDocument

def computations (rule : RuleDocument) : List ComputedDocument :=
  rule.attributes.values.flatMap AttributeDocument.computations

theorem compileAttributes_eq_mapM (source : String) (pairs : List (String × AttributeDocument)) :
    compileAttributes source pairs =
      pairs.mapM fun pair => (pair.2.compile source).map fun rule => (pair.1, rule) := by
  induction pairs with
  | nil => rfl
  | cons pair rest ih =>
    rw [compileAttributes, List.mapM_cons, ih]
    cases pair.2.compile source <;> rfl

theorem compiledFrom_of_compile {σ : Type} {d : RuleDocument}
    {transcoder : Option Texture.Transcoder} {rule : Rule σ} (h : d.compile transcoder = .ok rule) :
    rule.CompiledFrom d.computations := by
  unfold compile at h
  dsimp only at h
  by_cases hboth : (d.target.isSome && d.inPlace) = true
  · rw [if_pos hboth] at h
    cases h
  · rw [if_neg hboth] at h
    obtain ⟨attributes, hattributes, h⟩ := except_bind_eq_ok_iff.mp h
    obtain ⟨job, _, h⟩ := except_bind_eq_ok_iff.mp h
    cases h
    refine ⟨rfl, rfl, fun entry he => ?_⟩
    rw [compileAttributes_eq_mapM] at hattributes
    obtain ⟨pair, hpair, hentry⟩ :=
      exists_of_mem_mapM hattributes entry (Entries.mem_of_mem_ofPairs he)
    obtain ⟨rule, hcompile, rfl⟩ := except_map_eq_ok_iff.mp hentry
    refine (AttributeDocument.compiledFrom_of_compile hcompile).mono fun computation hc => ?_
    exact List.mem_flatMap.mpr ⟨pair.2, List.mem_map.mpr ⟨pair, hpair, rfl⟩, hc⟩

end RuleDocument

namespace SheetDocument

def computations (doc : SheetDocument) : List ComputedDocument :=
  doc.rules.flatMap RuleDocument.computations

theorem mem_of_compileRules {σ : Type} {transcoder : Option Texture.Transcoder}
    {rules : List RuleDocument} {sheet final : Sheet σ}
    (h : compileRules transcoder rules sheet = .ok final) : ∀ entry ∈ final.entries,
      (∃ rule ∈ rules, rule.compile transcoder = .ok entry.2) ∨ entry ∈ sheet.entries := by
  induction rules generalizing sheet with
  | nil =>
    cases h
    exact fun entry he => .inr he
  | cons rule rest ih =>
    obtain ⟨compiled, hcompiled, h⟩ := except_bind_eq_ok_iff.mp h
    intro entry he
    rcases ih h entry he with ⟨found, hfound, hcompile⟩ | hinsert
    · exact .inl ⟨found, List.mem_cons_of_mem _ hfound, hcompile⟩
    · rcases Entries.mem_of_mem_put hinsert with rfl | hentry
      · exact .inl ⟨rule, List.mem_cons_self, hcompiled⟩
      · exact .inr hentry

theorem compiledFrom_of_compile {σ : Type} {doc : SheetDocument}
    {transcoder : Option Texture.Transcoder} {sheet : Sheet σ}
    (h : doc.compile transcoder = .ok sheet) :
    ∀ entry ∈ sheet.entries, entry.2.CompiledFrom doc.computations := by
  intro entry he
  rcases mem_of_compileRules h entry he with ⟨rule, hrule, hcompile⟩ | hempty
  · have hfrom := RuleDocument.compiledFrom_of_compile hcompile
    refine ⟨hfrom.before, hfrom.after, fun named hn => (hfrom.attributes named hn).mono ?_⟩
    exact fun computation hc => List.mem_flatMap.mpr ⟨rule, hrule, hc⟩
  · cases hempty

end SheetDocument

end ShaderMigration
