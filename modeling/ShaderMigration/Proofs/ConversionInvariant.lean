import ShaderMigration.Conversion
import ShaderMigration.Proofs.PlugFreeSheets

namespace ShaderMigration

def NodeConversion.replacement? (conversion : NodeConversion) : Option Replacement :=
  match conversion.outcome with
  | .converted new => some ⟨conversion.old, new⟩
  | _ => none

def replacementsOf (conversions : List NodeConversion) : List Replacement :=
  conversions.filterMap NodeConversion.replacement?

theorem replacementsOf_cons (conversion : NodeConversion) (rest : List NodeConversion) :
    replacementsOf (conversion :: rest) =
      conversion.replacement?.toList ++ replacementsOf rest := by
  cases h : conversion.replacement? <;> simp [replacementsOf, h]

theorem replacementsOf_append (first rest : List NodeConversion) :
    replacementsOf (first ++ rest) = replacementsOf first ++ replacementsOf rest :=
  List.filterMap_append

theorem map_old_replacementsOf_sublist (conversions : List NodeConversion) :
    ((replacementsOf conversions).map Replacement.old).Sublist
      (conversions.map NodeConversion.old) := by
  induction conversions with
  | nil => exact List.Sublist.slnil
  | cons conversion rest ih =>
    rw [replacementsOf_cons, List.map_append, List.map_cons]
    unfold NodeConversion.replacement?
    split
    next => exact ih.cons_cons _
    next => exact ih.cons _

/-- Pairs in which something was replaced are the replacements, if none stands for itself. -/
theorem replaced_pairs_eq {conversions : List NodeConversion}
    (h : ∀ pair ∈ replacementsOf conversions, pair.new ≠ pair.old) :
    Cleanup.replaced (ConversionReport.mk conversions).pairs = replacementsOf conversions := by
  induction conversions with
  | nil => rfl
  | cons conversion rest ih =>
    rw [replacementsOf_cons] at h ⊢
    rw [← ih fun pair hp => h pair (List.mem_append_right _ hp)]
    have hsplit : Cleanup.replaced (ConversionReport.mk (conversion :: rest)).pairs =
        Cleanup.replaced (ConversionReport.mk [conversion]).pairs ++
          Cleanup.replaced (ConversionReport.mk rest).pairs := by
      unfold Cleanup.replaced ConversionReport.pairs
      rw [← List.filter_append, ← List.filterMap_append, List.singleton_append]
    rw [hsplit]
    congr 1
    cases ho : conversion.outcome with
    | converted new =>
      have hne : new ≠ conversion.old :=
        h ⟨conversion.old, new⟩ (by simp [NodeConversion.replacement?, ho])
      simp [Cleanup.replaced, ConversionReport.pairs, NodeConversion.result?,
        NodeConversion.replacement?, ho, Ne.symm hne]
    | skipped | passthrough | inPlace | failed cause =>
      simp [Cleanup.replaced, ConversionReport.pairs, NodeConversion.result?,
        NodeConversion.replacement?, ho]

theorem length_replacementsOf (report : ConversionReport) :
    (replacementsOf report.conversions).length = report.converted := by
  unfold ConversionReport.converted
  induction report.conversions with
  | nil => rfl
  | cons conversion rest ih =>
    rw [replacementsOf_cons, List.length_append, ih]
    cases ho : conversion.outcome <;>
      simp [NodeConversion.replacement?, NodeConversion.isConverted, ho, Nat.add_comm]

namespace Migrator

variable {σ : Type}

/-- The operations of a conversion keep a property of the replacements made so far and the state,
when the values they write are admissible for the old node. -/
structure Keeps (host : Host σ) (I : List Replacement → σ → Prop)
    (A : List Replacement → NodeId → Value → Prop) : Prop where
  onto : ∀ pairs old, Mapping.Keeps host old old (I pairs) (A pairs old)
  fill : ∀ {pairs old new}, ⟨old, new⟩ ∈ pairs → Mapping.Keeps host old new (I pairs) (A pairs old)
  rename : ∀ {pairs s} node name, I pairs s → I pairs (host.rename node name s).2
  create : ∀ {pairs s old type target secondary new s'}, I pairs s →
    (host.reads s).nodeType old = .ok type → host.create target secondary s = (.ok new, s') →
      I (pairs ++ [⟨old, new⟩]) s'
  refuse : ∀ {pairs s target secondary cause s'}, I pairs s →
    host.create target secondary s = (.error cause, s') → I pairs s'

/-- A rule without steps of its own whose converters yield admissible values. -/
structure Tame (A : List Replacement → NodeId → Value → Prop) (rule : Rule σ) : Prop where
  before : rule.before = none
  after : rule.after = none
  respects : ∀ pairs old, rule.Respects (A pairs old)

variable {migrator : Migrator σ} {I : List Replacement → σ → Prop}
  {A : List Replacement → NodeId → Value → Prop}

theorem runBefore_of_none {rule : Rule σ} (h : rule.before = none) (old : NodeId) (s : σ) :
    migrator.runBefore rule old s = ([], s) := by
  unfold runBefore
  rw [h]
  rfl

theorem runAfter_of_none {rule : Rule σ} (h : rule.after = none) (old new : NodeId) (s : σ) :
    migrator.runAfter rule old new s = ([], s) := by
  unfold runAfter
  rw [h]
  rfl

theorem keepNode_eq (migrator : Migrator σ) {rule : Rule σ} (h : rule.after = none) (old : NodeId)
    (s : σ) :
    migrator.keepNode rule old s =
      if rule.inPlace then
        let mapped := Mapping.mapAttributes migrator.host rule old old s
        ({ old, outcome := .inPlace, mappingFailures := mapped.1.failures }, mapped.2)
      else ({ old, outcome := .passthrough }, s) := by
  have hrun : migrator.runAfter rule old old = pure [] := by simp [runAfter, h]
  unfold keepNode
  rw [hrun]
  cases rule.inPlace <;> rfl

theorem fillReplacement_eq (migrator : Migrator σ) {rule : Rule σ} (h : rule.after = none)
    (token : String) (old new : NodeId) (run : Run σ) :
    ∃ refused, migrator.fillReplacement rule token old new run =
      let named := run.namer.label migrator.host old new token run.state
      let mapped := Mapping.mapAttributes migrator.host rule old new named.2.2
      ({ old, outcome := .converted new, mappingFailures := mapped.1.failures,
         hookFailures := refused }, ⟨named.2.1, mapped.2⟩) := by
  unfold fillReplacement
  simp only [runAfter_of_none h]
  exact ⟨_, rfl⟩

theorem applyRule_eq (migrator : Migrator σ) {rule : Rule σ} (h : rule.before = none)
    (old : NodeId) (run : Run σ) :
    migrator.applyRule rule old run =
      match rule.target with
      | none =>
        let kept := migrator.keepNode rule old run.state
        (kept.1, { run with state := kept.2 })
      | some target => migrator.replaceNode rule target old run := by
  unfold applyRule
  simp only [runBefore_of_none h]
  cases rule.target <;> rfl

theorem old_keepNode (migrator : Migrator σ) {rule : Rule σ} (h : rule.after = none) (old : NodeId)
    (s : σ) :
    (migrator.keepNode rule old s).1.old = old ∧
      (migrator.keepNode rule old s).1.replacement? = none := by
  rw [keepNode_eq migrator h]
  split
  next => exact ⟨rfl, rfl⟩
  next => exact ⟨rfl, rfl⟩

/-- A node whose type is unreadable or has no rule is left alone; any other one is handled by the
rule for its type. -/
theorem convertNode_cases (migrator : Migrator σ) (inline : Bool) (old : NodeId)
    (run : Run σ) :
    (∃ cause, migrator.convertNode inline old run = ({ old, outcome := .failed cause }, run)) ∨
      migrator.convertNode inline old run = ({ old, outcome := .skipped }, run) ∨
        ∃ type rule failures, (migrator.host.reads run.state).nodeType old = .ok type ∧
          migrator.sheet.find? type = some rule ∧
            migrator.convertNode inline old run =
              let applied := migrator.applyRule rule old run
              ({ applied.1 with hookFailures := failures }, applied.2) := by
  unfold convertNode
  dsimp only
  split
  next cause _ => exact Or.inl ⟨cause, rfl⟩
  next type htype =>
    refine Or.inr ?_
    cases hrule : migrator.sheet.find? type with
    | none => exact Or.inl rfl
    | some rule => exact Or.inr ⟨type, rule, _, htype, hrule, rfl⟩

theorem convertNodes_cons (pending : Pending) (node : NodeId) (rest : List NodeId) (run : Run σ) :
    migrator.convertNodes pending (node :: rest) run =
      let first := migrator.convertNode false node run
      let others := migrator.convertNodes (pending.except node) rest first.2
      ({ first.1 with hookFailures := pending.of node ++ first.1.hookFailures } :: others.1,
        others.2) := rfl

theorem convertTypes_cons (entry : String × Rule σ) (rest : List (String × Rule σ)) (run : Run σ) :
    migrator.convertTypes (entry :: rest) run =
      let first := migrator.convertType entry.1 entry.2 run
      let others := migrator.convertTypes rest first.2
      (first.1 ++ others.1, others.2) := rfl

/-- The conversion of a node keeps a property of the replacements made so far and the run. -/
def StepKeeps (migrator : Migrator σ) (I : List Replacement → Run σ → Prop) : Prop :=
  ∀ pairs node run, I pairs run →
    I (pairs ++ (migrator.convertNode false node run).1.replacement?.toList)
      (migrator.convertNode false node run).2

namespace StepKeeps

variable {I : List Replacement → Run σ → Prop} (k : migrator.StepKeeps I) {pairs : List Replacement}
  {run : Run σ} (h : I pairs run)
include k h

theorem convertNodes (pending : Pending) (nodes : List NodeId) :
    I (pairs ++ replacementsOf (migrator.convertNodes pending nodes run).1)
      (migrator.convertNodes pending nodes run).2 := by
  induction nodes generalizing pending pairs run with
  | nil =>
    change I (pairs ++ []) run
    rwa [List.append_nil]
  | cons node rest ih =>
    rw [convertNodes_cons, replacementsOf_cons, ← List.append_assoc]
    exact ih (k pairs node run h) (pending.except node)

theorem convertType (type : String) (rule : Rule σ) :
    I (pairs ++ replacementsOf (migrator.convertType type rule run).1)
      (migrator.convertType type rule run).2 :=
  k.convertNodes h _ _

theorem convertTypes (types : List (String × Rule σ)) :
    I (pairs ++ replacementsOf (migrator.convertTypes types run).1)
      (migrator.convertTypes types run).2 := by
  induction types generalizing pairs run with
  | nil =>
    change I (pairs ++ []) run
    rwa [List.append_nil]
  | cons entry rest ih =>
    rw [convertTypes_cons, replacementsOf_append, ← List.append_assoc]
    exact ih (k.convertType h entry.1 entry.2)

theorem autoConvert :
    I (pairs ++ replacementsOf (migrator.autoConvert run).1.conversions)
      (migrator.autoConvert run).2 :=
  k.convertTypes h migrator.sheet.entries

end StepKeeps

section Kept

variable (k : Keeps migrator.host I A)
include k

theorem keeps_keepNode {rule : Rule σ} (hr : Tame A rule) (old : NodeId) {pairs : List Replacement}
    {s : σ} (hs : I pairs s) : I pairs (migrator.keepNode rule old s).2 := by
  rw [keepNode_eq migrator hr.after]
  split
  next => exact (k.onto pairs old).mapAttributes (hr.respects pairs old) hs
  next => exact hs

theorem keeps_label (namer : Namer) (old new : NodeId) (token : String) {pairs : List Replacement}
    {s : σ} (hs : I pairs s) : I pairs (namer.label migrator.host old new token s).2.2 := by
  unfold Namer.label
  split
  next => exact hs
  next name _ _ => exact k.rename new name hs

theorem keeps_fillReplacement {rule : Rule σ} (hr : Tame A rule) (token : String) {old new : NodeId}
    {pairs : List Replacement} (hp : ⟨old, new⟩ ∈ pairs) {run : Run σ} (hs : I pairs run.state) :
    I pairs (migrator.fillReplacement rule token old new run).2.state := by
  obtain ⟨refused, heq⟩ := fillReplacement_eq migrator hr.after token old new run
  rw [heq]
  exact (k.fill hp).mapAttributes (hr.respects pairs old) (keeps_label k run.namer old new token hs)

omit k in
theorem old_fillReplacement (rule : Rule σ) (token : String) (old new : NodeId) (run : Run σ) :
    (migrator.fillReplacement rule token old new run).1.old = old ∧
      (migrator.fillReplacement rule token old new run).1.replacement? = some ⟨old, new⟩ :=
  ⟨rfl, rfl⟩

theorem keeps_replaceNode {rule : Rule σ} (hr : Tame A rule) (target : String) {old : NodeId}
    {pairs : List Replacement} {run : Run σ} (hs : I pairs run.state) {type : String}
    (htype : (migrator.host.reads run.state).nodeType old = .ok type) :
    I (pairs ++ (migrator.replaceNode rule target old run).1.replacement?.toList)
      (migrator.replaceNode rule target old run).2.state := by
  unfold replaceNode
  split
  next cause s' h => simpa [NodeConversion.replacement?] using k.refuse hs h
  next new s' h =>
    rw [(old_fillReplacement rule _ old new _).2]
    exact keeps_fillReplacement k hr _ (by simp) (k.create hs htype h)

omit k in
theorem old_replaceNode (rule : Rule σ) (target : String) (old : NodeId) (run : Run σ) :
    (migrator.replaceNode rule target old run).1.old = old := by
  unfold replaceNode
  split
  next => rfl
  next new s' h => exact (old_fillReplacement rule _ old new _).1

theorem keeps_applyRule {rule : Rule σ} (hr : Tame A rule) {old : NodeId}
    {pairs : List Replacement} {run : Run σ} (hs : I pairs run.state) {type : String}
    (htype : (migrator.host.reads run.state).nodeType old = .ok type) :
    I (pairs ++ (migrator.applyRule rule old run).1.replacement?.toList)
      (migrator.applyRule rule old run).2.state := by
  rw [applyRule_eq migrator hr.before]
  split
  next =>
    have hnone := (old_keepNode migrator hr.after old run.state).2
    simp only [hnone, Option.toList_none, List.append_nil]
    exact keeps_keepNode k hr old hs
  next target _ => exact keeps_replaceNode k hr target hs htype

theorem keeps_convertNode
    (hsheet : ∀ entry ∈ migrator.sheet.entries, Tame A entry.2) (inline : Bool) (old : NodeId)
    {pairs : List Replacement} {run : Run σ} (hs : I pairs run.state) :
    I (pairs ++ (migrator.convertNode inline old run).1.replacement?.toList)
      (migrator.convertNode inline old run).2.state := by
  rcases convertNode_cases migrator inline old run with
    ⟨cause, heq⟩ | heq | ⟨type, rule, failures, htype, hrule, heq⟩
  · rw [heq]
    simpa [NodeConversion.replacement?] using hs
  · rw [heq]
    simpa [NodeConversion.replacement?] using hs
  · rw [heq]
    exact keeps_applyRule k (hsheet _ (Table.mem_entries_iff.mpr hrule)) hs htype

theorem stepKeeps (hsheet : ∀ entry ∈ migrator.sheet.entries, Tame A entry.2) :
    migrator.StepKeeps fun pairs run => I pairs run.state :=
  fun _ node _ hs => keeps_convertNode k hsheet false node hs

end Kept

theorem keeps_convertType (k : Keeps migrator.host I A)
    (hsheet : ∀ entry ∈ migrator.sheet.entries, Tame A entry.2) (type : String) (rule : Rule σ)
    {pairs : List Replacement} {run : Run σ} (hs : I pairs run.state) :
    I (pairs ++ replacementsOf (migrator.convertType type rule run).1)
      (migrator.convertType type rule run).2.state :=
  (stepKeeps k hsheet).convertType hs type rule

theorem keeps_autoConvert (migrator : Migrator σ) (k : Keeps migrator.host I A)
    (hsheet : ∀ entry ∈ migrator.sheet.entries, Tame A entry.2) (run : Run σ)
    (hs : I [] run.state) :
    I (replacementsOf (migrator.autoConvert run).1.conversions)
      (migrator.autoConvert run).2.state :=
  (stepKeeps k hsheet).autoConvert hs

theorem old_convertNode (hsheet : ∀ entry ∈ migrator.sheet.entries, Tame A entry.2) (inline : Bool)
    (old : NodeId) (run : Run σ) : (migrator.convertNode inline old run).1.old = old := by
  rcases convertNode_cases migrator inline old run with
    ⟨cause, heq⟩ | heq | ⟨type, rule, failures, _, hrule, heq⟩
  · rw [heq]
  · rw [heq]
  · have hr := hsheet _ (Table.mem_entries_iff.mpr hrule)
    rw [heq]
    change (migrator.applyRule rule old run).1.old = old
    rw [applyRule_eq migrator hr.before]
    split
    next => exact (old_keepNode migrator hr.after old run.state).1
    next target _ => exact old_replaceNode rule target old run

theorem olds_convertNodes (hsheet : ∀ entry ∈ migrator.sheet.entries, Tame A entry.2)
    (pending : Pending) (nodes : List NodeId) (run : Run σ) :
    (migrator.convertNodes pending nodes run).1.map NodeConversion.old = nodes := by
  induction nodes generalizing pending run with
  | nil => rfl
  | cons node rest ih =>
    rw [convertNodes_cons, List.map_cons, ih, old_convertNode hsheet false node run]

theorem olds_convertType (hsheet : ∀ entry ∈ migrator.sheet.entries, Tame A entry.2)
    (type : String) (rule : Rule σ) (run : Run σ) :
    (migrator.convertType type rule run).1.map NodeConversion.old =
      (migrator.host.reads run.state).nodesOfType type :=
  olds_convertNodes hsheet _ _ run

end Migrator

end ShaderMigration
