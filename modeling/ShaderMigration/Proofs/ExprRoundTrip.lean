import ShaderMigration.Proofs.PlugFreeSheets
import ShaderMigration.Proofs.StepOverflow
import ShaderMigration.Proofs.TreeRoundTrip

namespace ShaderMigration

open Data (Layout Fields)

namespace Data

variable {p q : Data → Bool}

theorem anyLeaf_list {items : List Data} :
    anyLeaf p (.list items) = false ↔ ∀ item ∈ items, item.anyLeaf p = false := by
  rw [anyLeaf]
  induction items with
  | nil => simp [anyLeafOfItems]
  | cons item rest ih => simp [anyLeafOfItems, ih]

theorem anyLeaf_record {members : List (String × Data)} :
    anyLeaf p (.record members) = false ↔ ∀ member ∈ members, member.2.anyLeaf p = false := by
  rw [anyLeaf]
  induction members with
  | nil => simp [anyLeafOfMembers]
  | cons member rest ih =>
    obtain ⟨key, value⟩ := member
    rw [anyLeafOfMembers, anyLeafOfMember, Bool.or_eq_false_iff, ih, List.forall_mem_cons]

mutual

theorem anyLeaf_mono (h : ∀ leaf, q leaf = true → p leaf = true) :
    ∀ d : Data, d.anyLeaf p = false → d.anyLeaf q = false
  | .list items, hd => anyLeafOfItems_mono h items hd
  | .record members, hd => anyLeafOfMembers_mono h members hd
  | .null, hd | .bool _, hd | .int _, hd | .float _, hd | .text _, hd =>
    Bool.eq_false_iff.mpr fun hq => Bool.eq_false_iff.mp hd (h _ hq)

theorem anyLeafOfItems_mono (h : ∀ leaf, q leaf = true → p leaf = true) :
    ∀ items : List Data, anyLeafOfItems p items = false → anyLeafOfItems q items = false
  | [], _ => rfl
  | item :: rest, hd => by
    obtain ⟨hitem, hrest⟩ := Bool.or_eq_false_iff.mp hd
    rw [anyLeafOfItems, anyLeaf_mono h item hitem, anyLeafOfItems_mono h rest hrest, Bool.or_self]

theorem anyLeafOfMembers_mono (h : ∀ leaf, q leaf = true → p leaf = true) :
    ∀ members : List (String × Data), anyLeafOfMembers p members = false →
      anyLeafOfMembers q members = false
  | [], _ => rfl
  | (_, value) :: rest, hd => by
    obtain ⟨hvalue, hrest⟩ := Bool.or_eq_false_iff.mp hd
    rw [anyLeafOfMembers, anyLeafOfMember, anyLeaf_mono h value hvalue,
      anyLeafOfMembers_mono h rest hrest, Bool.or_self]

end

def isPlain : Data → Bool
  | .null => false
  | .int n => decide (Int64.minValue.toInt ≤ n ∧ n ≤ Int64.maxValue.toInt)
  | .float x => Binary64.isFinite x
  | _ => true

/-- No leaf is null, and every number is finite and within 64 bits. -/
def Plain (d : Data) : Prop := d.anyLeaf (fun leaf => !leaf.isPlain) = false

theorem isNull_of_isPlain {leaf : Data} (h : leaf.isPlain = true) : leaf.isNull = false := by
  cases leaf with
  | null => cases h
  | bool | int | float | text | list | record => rfl

theorem isWide_of_isPlain {leaf : Data} (h : leaf.isPlain = true) : leaf.isWide = false := by
  cases leaf with
  | int n =>
    have hfits := of_decide_eq_true h
    have hmax : Int64.maxValue.toInt < (Nat.pow 2 64 : Nat) := by decide
    rw [isWide, decide_eq_false_iff_not]
    omega
  | null | bool | float | text | list | record => rfl

theorem Plain.anyLeaf {d : Data} (h : d.Plain) (hp : ∀ leaf, leaf.isPlain = true → p leaf = false) :
    d.anyLeaf p = false := by
  refine anyLeaf_mono (fun leaf hleaf => ?_) d h
  cases hplain : leaf.isPlain with
  | false => rfl
  | true => cases hleaf.symm.trans (hp leaf hplain)

theorem beq_self_of_isFinite {x : Float} (h : Binary64.isFinite x = true) : (x == x) = true := by
  rw [Float.beq_self_iff]
  rintro rfl
  exact absurd h (by decide)

mutual

theorem Plain.alike_self : ∀ {d : Data}, d.Plain → d.alike d = true
  | .list items, h => by rw [alike, alikeItems_self h]
  | .record members, h => by rw [alike, alikeMembers_self h]
  | .null, _ => by rw [alike]
  | .bool _, _ | .int _, _ | .text _, _ => by rw [alike, beq_self_eq_true]
  | .float x, h => by
    rw [alike]
    exact beq_self_of_isFinite (by simpa [Plain, anyLeaf, isPlain] using h)

theorem alikeItems_self : ∀ {items : List Data}, (list items).Plain → alikeItems items items = true
  | [], _ => by rw [alikeItems]
  | item :: rest, h => by
    obtain ⟨hitem, hrest⟩ := List.forall_mem_cons.mp (anyLeaf_list.mp h)
    rw [alikeItems, Plain.alike_self hitem, alikeItems_self (anyLeaf_list.mpr hrest), Bool.and_self]

theorem alikeMembers_self : ∀ {members : List (String × Data)}, (record members).Plain →
    alikeMembers members members = true
  | [], _ => by rw [alikeMembers]
  | (key, value) :: rest, h => by
    obtain ⟨hvalue, hrest⟩ := List.forall_mem_cons.mp (anyLeaf_record.mp h)
    rw [alikeMembers, alikeMember, beq_self_eq_true, Plain.alike_self hvalue,
      alikeMembers_self (anyLeaf_record.mpr hrest), Bool.and_self, Bool.and_self]

end

end Data

namespace Expr

variable {nulls indexed below : Bool} {depth : Nat}

theorem untag?_tagged {name : String} {parameters : List (String × Data)}
    (h : ∀ member ∈ parameters, member.1 ≠ "expr") :
    untag? indexed (tagged name parameters) = some (name, .record parameters) := by
  have hnone : parameters.filter (fun member => member.1 == "expr") = [] :=
    List.filter_eq_nil_iff.mpr fun member hm => by simpa using h member hm
  have hall : parameters.filter (fun member => member.1 != "expr") = parameters :=
    List.filter_eq_self.mpr fun member hm => by simpa using h member hm
  rw [tagged, untag?, List.filter_cons_of_pos (by rfl), hnone]
  simp [nameOfTag?, hall]

theorem readWithin?_tagged {name : String} {parameters : List (String × Data)}
    (hname : name ≠ "chain") (h : ∀ member ∈ parameters, member.1 ≠ "expr") :
    readWithin? (depth + 1) indexed below (tagged name parameters) =
      ofParameters? name (.record parameters) := by
  rw [readWithin?, untag?_tagged h]
  simp [hname]

theorem readWithin?_chain (steps : List Data) :
    readWithin? (depth + 1) indexed below (tagged "chain" [("steps", .list steps)]) =
      (steps.mapM (readWithin? depth below below)).map chain := by
  have hsteps : stepsOfParameters? (.record [("steps", .list steps)]) = some steps := rfl
  rw [readWithin?, untag?_tagged (by simp)]
  simp [hsteps, Option.map_eq_bind]

theorem optional?_of_ne_null {α : Type} {read : Data → Option α} {d : Data} (h : d ≠ .null) :
    Data.optional? read d = (read d).map some := by
  cases d with
  | null => exact absurd rfl h
  | bool | int | float | text | list | record => rfl

theorem mapM_entryOfData? {entries : List (Data × Data)}
    (h : ∀ entry ∈ entries, entry.1.sorted = entry.1 ∧ entry.2.sorted = entry.2) :
    (entries.map fun entry => Data.list [entry.1, entry.2]).mapM entryOfData? = some entries := by
  refine mapM_map_eq_some fun entry hm => ?_
  rw [entryOfData?, (h entry hm).1, (h entry hm).2]

/-- A default that is missing is read back from null as well as from nothing. -/
theorem defaulted_defaultMember (nulls : Bool) (table : Data) {default : Option Data}
    (h : ∀ d ∈ default, d.sorted = d ∧ d ≠ .null) :
    ∃ fields, Layout.read? (.ofFields ["table", "default"])
        (.record (("table", table) :: defaultMember nulls default)) = some fields ∧
      Entries.find? "table" fields = some table ∧
      fields.defaulted "default" (Data.optional? literalOfData?) none = some default := by
  cases default with
  | none => cases nulls <;> exact ⟨_, rfl, rfl, rfl⟩
  | some d =>
    obtain ⟨hsorted, hnull⟩ := h d rfl
    refine ⟨[("default", d), ("table", table)], rfl, rfl, ?_⟩
    have hread : Fields.defaulted [("default", d), ("table", table)] "default"
        (Data.optional? literalOfData?) none = Data.optional? literalOfData? d := rfl
    rw [hread, optional?_of_ne_null hnull, literalOfData?, hsorted, Option.map_some]

theorem ofParameters?_lookup (nulls : Bool) {entries : List (Data × Data)} {default : Option Data}
    (h : ∀ d ∈ (lookup entries default).literals, d.sorted = d ∧ d ≠ .null) :
    ofParameters? "lookup"
        (.record (("table", .list (entries.map fun entry => .list [entry.1, entry.2])) ::
          defaultMember nulls default)) =
      some (lookup entries default) := by
  simp only [literals, List.forall_mem_append, List.forall_mem_map] at h
  obtain ⟨⟨hkeys, hresults⟩, hdefault⟩ := h
  have hentries := mapM_entryOfData? fun entry hm => ⟨(hkeys entry hm).1, (hresults entry hm).1⟩
  obtain ⟨fields, hfields, htable, hread⟩ := defaulted_defaultMember nulls
    (.list (entries.map fun entry => .list [entry.1, entry.2])) fun d hd => hdefault d (by simpa using hd)
  have hlist : fields.required "table" (Data.listOf? entryOfData?) = some entries := by
    rw [Fields.required, htable, Option.bind_some, Data.listOf?, Data.items?, Option.bind_some, hentries]
  rw [ofParameters?, hfields]
  simp [hlist, hread]

theorem ofParameters?_equals {value yes no : Data}
    (h : ∀ d ∈ (equals value yes no).literals, d.sorted = d ∧ d ≠ .null) :
    ofParameters? "equals" (.record [("value", value), ("then", yes), ("else", no)]) =
      some (equals value yes no) := by
  have hread : ofParameters? "equals" (.record [("value", value), ("then", yes), ("else", no)]) =
      some (equals value.sorted yes.sorted no.sorted) := rfl
  simp only [literals, List.forall_mem_cons] at h
  rw [hread, h.1.1, h.2.1.1, h.2.2.1.1]

theorem ofParameters?_greaterThan {threshold : Float} {yes no : Data}
    (h : ∀ d ∈ (greaterThan threshold yes no).literals, d.sorted = d ∧ d ≠ .null) :
    ofParameters? "greater_than"
        (.record [("threshold", .float threshold), ("then", yes), ("else", no)]) =
      some (greaterThan threshold yes no) := by
  have hread : ofParameters? "greater_than"
      (.record [("threshold", .float threshold), ("then", yes), ("else", no)]) =
        some (greaterThan threshold yes.sorted no.sorted) := rfl
  simp only [literals, List.forall_mem_cons] at h
  rw [hread, h.1.1, h.2.1.1]

mutual

/-- No default of a parameter changes what is written. -/
theorem readWithin?_toData : ∀ (expr : Expr) {depth : Nat} (indexed below : Bool),
    (expr.toData nulls).depth < depth → (∀ d ∈ expr.literals, d.sorted = d ∧ d ≠ .null) →
      readWithin? depth indexed below (expr.toData nulls) = some expr
  | _, 0, _, _, hdepth, _ => absurd hdepth (Nat.not_lt_zero _)
  | identity, depth + 1, _, _, _, _ | exp2, depth + 1, _, _, _, _ | negation, depth + 1, _, _, _, _
  | mean, depth + 1, _, _, _, _ | splat, depth + 1, _, _, _, _ => by
    rw [toData, readWithin?_tagged (by decide) (by simp)]
    rfl
  | affine scale offset, depth + 1, _, _, _, _ => by
    rw [toData, readWithin?_tagged (by decide) (by simp)]
    rfl
  | clampMin bound, depth + 1, _, _, _, _ | clampMax bound, depth + 1, _, _, _, _ => by
    rw [toData, readWithin?_tagged (by decide) (by simp)]
    rfl
  | lookup entries default, depth + 1, _, _, _, h => by
    have hother : ∀ member ∈ defaultMember nulls default, member.1 ≠ "expr" := by
      cases default <;> cases nulls <;> simp [defaultMember]
    rw [toData, readWithin?_tagged (by decide) (by simpa using hother)]
    exact ofParameters?_lookup nulls h
  | equals value yes no, depth + 1, _, _, _, h => by
    rw [toData, readWithin?_tagged (by decide) (by simp)]
    exact ofParameters?_equals h
  | greaterThan threshold yes no, depth + 1, _, _, _, h => by
    rw [toData, readWithin?_tagged (by decide) (by simp)]
    exact ofParameters?_greaterThan h
  | chain steps, depth + 1, _, below, hdepth, h => by
    -- only chains are nested, so only they use up the depth
    have hsteps : Data.depthOfItems (toDataAll nulls steps) < depth := by
      simp only [toData, tagged, Data.depth, Data.depthOfMembers, Data.depthOfMember] at hdepth
      omega
    have hread := mapM_toDataAll steps below below hsteps (by simpa only [literals] using h)
    rw [toData, readWithin?_chain, hread, Option.map_some]

theorem mapM_toDataAll : ∀ (steps : List Expr) {depth : Nat} (indexed below : Bool),
    Data.depthOfItems (toDataAll nulls steps) < depth →
    (∀ d ∈ literalsOf steps, d.sorted = d ∧ d ≠ .null) →
      (toDataAll nulls steps).mapM (readWithin? depth indexed below) = some steps
  | [], _, _, _, _, _ => rfl
  | step :: rest, depth, indexed, below, hdepth, h => by
    obtain ⟨hfirst, hrest⟩ := List.forall_mem_append.mp h
    rw [toDataAll, Data.depthOfItems, Nat.max_lt] at hdepth
    rw [toDataAll, List.mapM_cons, readWithin?_toData step indexed below hdepth.1 hfirst,
      mapM_toDataAll rest indexed below hdepth.2 hrest]
    rfl

end

theorem constantOfData?_toData (expr : Expr) :
    ComputedDocument.constantOfData? (expr.toData nulls) = none := by
  cases expr with
  | lookup entries default => cases default <;> cases nulls <;> rfl
  | identity | affine | exp2 | negation | clampMin | clampMax | equals | greaterThan | mean | splat
  | chain => rfl

section Leaves

variable {p : Data → Bool}

theorem anyLeaf_tagged (htext : ∀ s, p (.text s) = false) {name : String}
    {parameters : List (String × Data)} (h : ∀ member ∈ parameters, member.2.anyLeaf p = false) :
    (tagged name parameters).anyLeaf p = false :=
  Data.anyLeaf_record.mpr (List.forall_mem_cons.mpr ⟨htext name, h⟩)

theorem anyLeaf_defaultMember (hnull : nulls = true → p .null = false) {default : Option Data}
    (h : ∀ d ∈ default, d.anyLeaf p = false) :
    ∀ member ∈ defaultMember nulls default, member.2.anyLeaf p = false := by
  cases default with
  | some d => exact List.forall_mem_singleton.mpr (h d rfl)
  | none =>
    cases nulls with
    | true => exact List.forall_mem_singleton.mpr (hnull rfl)
    | false => exact List.forall_mem_nil _

mutual

/-- The leaves of what is written are names, the numbers of the steps and the leaves of the literals. -/
theorem anyLeaf_toData (htext : ∀ s, p (.text s) = false) (hnull : nulls = true → p .null = false) :
    ∀ expr : Expr, (∀ step ∈ expr.steps, ∀ x ∈ step.parameters, p (.float x) = false) →
      (∀ d ∈ expr.literals, d.anyLeaf p = false) → (expr.toData nulls).anyLeaf p = false
  | identity, _, _ | exp2, _, _ | negation, _, _ | mean, _, _ | splat, _, _ =>
    anyLeaf_tagged htext (List.forall_mem_nil _)
  | affine scale offset, hsteps, _ =>
    anyLeaf_tagged htext (by simpa [steps, parameters, Data.anyLeaf] using hsteps)
  | clampMin bound, hsteps, _ | clampMax bound, hsteps, _ =>
    anyLeaf_tagged htext (by simpa [steps, parameters, Data.anyLeaf] using hsteps)
  | lookup entries default, _, hliterals => by
    simp only [literals, List.forall_mem_append, List.forall_mem_map] at hliterals
    obtain ⟨⟨hkeys, hresults⟩, hdefault⟩ := hliterals
    refine anyLeaf_tagged htext (List.forall_mem_cons.mpr ⟨Data.anyLeaf_list.mpr ?_, ?_⟩)
    · refine List.forall_mem_map.mpr fun entry hm => Data.anyLeaf_list.mpr ?_
      exact List.forall_mem_cons.mpr ⟨hkeys entry hm, List.forall_mem_singleton.mpr (hresults entry hm)⟩
    · exact anyLeaf_defaultMember hnull fun d hd => hdefault d (by simpa using hd)
  | equals value yes no, _, hliterals =>
    anyLeaf_tagged htext (by simpa [literals] using hliterals)
  | greaterThan threshold yes no, hsteps, hliterals => by
    have hthreshold : (Data.float threshold).anyLeaf p = false := by
      simpa [steps, parameters, Data.anyLeaf] using hsteps
    exact anyLeaf_tagged htext
      (List.forall_mem_cons.mpr ⟨hthreshold, by simpa [literals] using hliterals⟩)
  | chain parts, hsteps, hliterals => by
    refine anyLeaf_tagged htext (List.forall_mem_singleton.mpr ?_)
    exact anyLeafOfItems_toDataAll htext hnull parts hsteps hliterals

theorem anyLeafOfItems_toDataAll (htext : ∀ s, p (.text s) = false)
    (hnull : nulls = true → p .null = false) : ∀ parts : List Expr,
      (∀ step ∈ stepsOf parts, ∀ x ∈ step.parameters, p (.float x) = false) →
        (∀ d ∈ literalsOf parts, d.anyLeaf p = false) →
          Data.anyLeafOfItems p (toDataAll nulls parts) = false
  | [], _, _ => rfl
  | part :: rest, hsteps, hliterals => by
    obtain ⟨hfirstSteps, hrestSteps⟩ := List.forall_mem_append.mp hsteps
    obtain ⟨hfirst, hrest⟩ := List.forall_mem_append.mp hliterals
    rw [toDataAll, Data.anyLeafOfItems, anyLeaf_toData htext hnull part hfirstSteps hfirst,
      anyLeafOfItems_toDataAll htext hnull rest hrestSteps hrest, Bool.or_self]

end

end Leaves

end Expr

end ShaderMigration
