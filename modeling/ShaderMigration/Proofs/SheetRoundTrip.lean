import ShaderMigration.Proofs.ExprRoundTrip

namespace ShaderMigration

open Data (Layout Fields)

def ComputedDocument.literals : ComputedDocument → List Data
  | constant literal => [literal]
  | expr e => e.literals

/-- Every literal is plain and in key order, as a value is kept, and the numbers beside the steps are
finite. -/
structure ComputedDocument.Plain (computation : ComputedDocument) : Prop where
  literals : ∀ d ∈ computation.literals, d.Plain ∧ d.sorted = d
  parameters : ∀ step ∈ computation.steps, ∀ x ∈ step.parameters, Binary64.isFinite x = true

namespace ComputedDocument

variable {computation : ComputedDocument} {format : DocumentFormat}

theorem ofData?_toData (h : computation.Plain) :
    ofData? format (computation.toData format) = some computation := by
  cases computation with
  | constant literal =>
    have hread : constantOfData? (.record [("constant", literal)]) = some literal.sorted := rfl
    have hsorted : literal.sorted = literal := (h.literals literal List.mem_cons_self).2
    rw [toData, ofData?, hread, hsorted]
  | expr e =>
    have hliterals : ∀ d ∈ e.literals, d.sorted = d ∧ d ≠ .null := by
      intro d hd
      obtain ⟨hplain, hsorted⟩ := h.literals d hd
      refine ⟨hsorted, ?_⟩
      rintro rfl
      cases hplain
    rw [toData, ofData?, Expr.constantOfData?_toData, Expr.ofData?,
      Expr.readWithin?_toData e _ _ (Nat.lt_succ_self _) hliterals]
    rfl

theorem anyLeaf_toData {p : Data → Bool} (hnull : format = .json → p .null = false)
    (hplain : ∀ leaf, leaf.isPlain = true → p leaf = false) (h : computation.Plain) :
    (computation.toData format).anyLeaf p = false := by
  have hliterals : ∀ d ∈ computation.literals, d.anyLeaf p = false := fun d hd =>
    (h.literals d hd).1.anyLeaf hplain
  cases computation with
  | constant literal =>
    exact Data.anyLeaf_record.mpr (List.forall_mem_singleton.mpr (hliterals literal List.mem_cons_self))
  | expr e =>
    exact Expr.anyLeaf_toData (fun s => hplain _ rfl) (fun hjson => hnull (beq_iff_eq.mp hjson)) e
      (fun step hstep x hx => hplain _ (h.parameters step hstep x hx)) hliterals

end ComputedDocument

namespace AttributeDocument

variable {doc : AttributeDocument} {format : DocumentFormat}

theorem anyLeaf_toData {p : Data → Bool} (hnull : format = .json → p .null = false)
    (hplain : ∀ leaf, leaf.isPlain = true → p leaf = false)
    (h : ∀ computation ∈ doc.computations, computation.Plain) :
    (doc.toData format).anyLeaf p = false := by
  cases doc with
  | rename target => exact hplain _ rfl
  | fanOut targets =>
    exact Data.anyLeaf_list.mpr (List.forall_mem_map.mpr fun target _ => hplain _ rfl)
  | computed targets =>
    refine Data.anyLeaf_record.mpr (List.forall_mem_singleton.mpr (Data.anyLeaf_record.mpr ?_))
    refine List.forall_mem_map.mpr fun entry hentry => ?_
    exact ComputedDocument.anyLeaf_toData hnull hplain (h entry.2 (List.mem_map_of_mem hentry))

/-- A text is no list and a list is no record, so none of the three forms is taken for another. -/
theorem ofData?_toData (h : ∀ computation ∈ doc.computations, computation.Plain) :
    ofData? format (doc.toData format) = some doc := by
  have hwide : (doc.toData format).hasWide = false :=
    anyLeaf_toData (fun _ => rfl) (fun leaf hleaf => Data.isWide_of_isPlain hleaf) h
  rw [ofData?, hwide, if_neg Bool.false_ne_true]
  cases doc with
  | rename target => rfl
  | fanOut targets =>
    have htargets : (targets.map Data.text).mapM Data.text? = some targets :=
      mapM_map_eq_some fun _ _ => rfl
    rw [toData, ofFitting?, htargets, Option.map_some]
  | computed targets =>
    have htargets : Table.ofData? (ComputedDocument.ofData? format)
        (targets.toData (ComputedDocument.toData format)) = some targets :=
      Table.ofData?_toData fun entry hentry =>
        ComputedDocument.ofData?_toData (h entry.2 (List.mem_map_of_mem hentry))
    have hfields : Layout.ofMembers? (.ofFields ["computed"])
        [("computed", targets.toData (ComputedDocument.toData format))] [] =
          some [("computed", targets.toData (ComputedDocument.toData format))] := rfl
    rw [toData, ofFitting?, hfields]
    simp [Fields.required, Entries.find?, htargets]

end AttributeDocument

/-- Of the parts of a record those that are there are found, and nothing in place of the others. -/
theorem Data.Layout.read?_present {layout : Layout} {parts : List (String × Option Data)}
    (hnodup : (Entries.keys parts).Nodup)
    (hknown : ∀ part ∈ parts, ∃ field, layout.field? part.1 = some field ∧ field.name = part.1) :
    ∃ fields, layout.read? (.record (Entries.present parts)) = some fields ∧
      ∀ name, Entries.find? name fields = (Entries.find? name parts).join := by
  have hmembers : ∀ member ∈ Entries.present parts,
      ∃ field, layout.field? member.1 = some field ∧ field.name = member.1 := by
    intro member hm
    obtain ⟨part, hpart, hmember⟩ := List.mem_filterMap.mp hm
    obtain ⟨d, _, rfl⟩ := Option.map_eq_some_iff.mp hmember
    exact hknown part hpart
  obtain ⟨fields, hfields, hfind⟩ := Layout.read?_arrange Data.arrangement_id
    (hnodup.sublist Entries.keys_present) hmembers
  refine ⟨fields, hfields, fun name => ?_⟩
  rw [hfind, Entries.find?_present hnodup, Option.map_id_fun, id]

theorem Data.anyLeaf_present {p : Data → Bool} {parts : List (String × Option Data)}
    (h : ∀ part ∈ parts, ∀ d ∈ part.2, d.anyLeaf p = false) :
    (Data.record (Entries.present parts)).anyLeaf p = false := by
  refine Data.anyLeaf_record.mpr fun member hm => ?_
  obtain ⟨part, hpart, hmember⟩ := List.mem_filterMap.mp hm
  obtain ⟨d, hd, rfl⟩ := Option.map_eq_some_iff.mp hmember
  exact h part hpart d hd

theorem Data.plain_of_text {text : Option String} : ∀ d ∈ text.map Data.text, d.Plain := by
  intro d hd
  obtain ⟨s, _, rfl⟩ := Option.map_eq_some_iff.mp hd
  rfl

theorem Data.Fields.defaulted_text {fields : Fields} {name : String} {text : Option String}
    (h : Entries.find? name fields = text.map .text) :
    fields.defaulted name (Data.optional? Data.text?) none = some text := by
  rw [Fields.defaulted, h]
  cases text <;> rfl

namespace RuleDocument

variable {rule : RuleDocument} {format : DocumentFormat}

def parts (format : DocumentFormat) (rule : RuleDocument) : List (String × Option Data) :=
  [("source", some (.text rule.source)), ("target", rule.target.map .text),
    ("secondary", rule.secondary.map .text),
    ("name_after_secondary", some (.bool rule.nameAfterSecondary)),
    ("in_place", some (.bool rule.inPlace)), ("transcode", rule.transcode.map .text),
    ("attributes", some (rule.attributes.toData (AttributeDocument.toData format)))]

theorem toData_eq (rule : RuleDocument) :
    rule.toData format = .record (Entries.present (rule.parts format)) := by
  obtain ⟨source, target, secondary, nameAfterSecondary, inPlace, transcode, attributes⟩ := rule
  cases target <;> cases secondary <;> cases transcode <;> rfl

theorem ofData?_toData (h : ∀ computation ∈ rule.computations, computation.Plain) :
    ofData? format (rule.toData format) = some rule := by
  have hattributes : Table.ofData? (AttributeDocument.ofData? format)
      (rule.attributes.toData (AttributeDocument.toData format)) = some rule.attributes :=
    Table.ofData?_toData fun entry hentry => AttributeDocument.ofData?_toData fun computation hc =>
      h computation (List.mem_flatMap.mpr ⟨entry.2, List.mem_map_of_mem hentry, hc⟩)
  have hnodup : (Entries.keys (rule.parts format)).Nodup := by
    simp [Entries.keys, parts]
  have hknown : ∀ part ∈ rule.parts format,
      ∃ field, (layout format).field? part.1 = some field ∧ field.name = part.1 := by
    simp [parts, layout, Layout.field?]
  obtain ⟨fields, hfields, hfind⟩ := Layout.read?_present hnodup hknown
  have hsource : fields.required "source" Data.text? = some rule.source := by
    rw [Fields.required, hfind]
    rfl
  have htarget := Fields.defaulted_text (hfind "target")
  have hsecondary := Fields.defaulted_text (hfind "secondary")
  have htranscode := Fields.defaulted_text (hfind "transcode")
  have hname : fields.defaulted "name_after_secondary" Data.bool? false =
      some rule.nameAfterSecondary := by
    rw [Fields.defaulted, hfind]
    rfl
  have hplace : fields.defaulted "in_place" Data.bool? false = some rule.inPlace := by
    rw [Fields.defaulted, hfind]
    rfl
  have hread : fields.defaulted "attributes" (Table.ofData? (AttributeDocument.ofData? format)) {} =
      some rule.attributes := by
    rw [Fields.defaulted, hfind]
    exact hattributes
  rw [ofData?, toData_eq, hfields]
  simp [hsource, htarget, hsecondary, htranscode, hname, hplace, hread]

theorem plain_toData (h : ∀ computation ∈ rule.computations, computation.Plain) :
    (rule.toData .toml).Plain := by
  have hattributes : (rule.attributes.toData (AttributeDocument.toData .toml)).Plain := by
    refine Data.anyLeaf_record.mpr (List.forall_mem_map.mpr fun entry hentry => ?_)
    refine AttributeDocument.anyLeaf_toData nofun (fun leaf hleaf => by rw [hleaf]; rfl) ?_
    intro computation hc
    exact h computation (List.mem_flatMap.mpr ⟨entry.2, List.mem_map_of_mem hentry, hc⟩)
  rw [toData_eq]
  refine Data.anyLeaf_present ?_
  simp only [parts, List.forall_mem_cons]
  refine ⟨?_, Data.plain_of_text, Data.plain_of_text, ?_, ?_, Data.plain_of_text, ?_,
    List.forall_mem_nil _⟩
  · rintro _ ⟨⟩
    rfl
  · rintro _ ⟨⟩
    rfl
  · rintro _ ⟨⟩
    rfl
  · rintro _ ⟨⟩
    exact hattributes

end RuleDocument

namespace SheetDocument

variable {sheet : SheetDocument} {format : DocumentFormat}

def parts (format : DocumentFormat) (sheet : SheetDocument) : List (String × Option Data) :=
  [("name", sheet.name.map .text), ("description", sheet.description.map .text),
    ("rule", some (.list (sheet.rules.map (RuleDocument.toData format))))]

theorem toData_eq (sheet : SheetDocument) :
    sheet.toData format = .record (Entries.present (sheet.parts format)) := by
  obtain ⟨name, description, rules⟩ := sheet
  cases name <;> cases description <;> rfl

/-- All numbers are finite, integers fit 64 bits, and nothing is null; literals are kept in key order. -/
def Plain (sheet : SheetDocument) : Prop := ∀ computation ∈ sheet.computations, computation.Plain

theorem Plain.rule (h : sheet.Plain) {rule : RuleDocument} (hrule : rule ∈ sheet.rules) :
    ∀ computation ∈ rule.computations, computation.Plain := fun computation hc =>
  h computation (List.mem_flatMap.mpr ⟨rule, hrule, hc⟩)

theorem ofData?_toData (h : sheet.Plain) : ofData? format (sheet.toData format) = some sheet := by
  have hrules : Data.listOf? (RuleDocument.ofData? format)
      (.list (sheet.rules.map (RuleDocument.toData format))) = some sheet.rules :=
    mapM_map_eq_some fun rule hrule => RuleDocument.ofData?_toData (h.rule hrule)
  have hknown : ∀ part ∈ sheet.parts format,
      ∃ field, layout.field? part.1 = some field ∧ field.name = part.1 := by
    simp [parts, layout, Layout.field?, Layout.ofFields]
  obtain ⟨fields, hfields, hfind⟩ := Layout.read?_present (by simp [Entries.keys, parts]) hknown
  have hname := Fields.defaulted_text (hfind "name")
  have hdescription := Fields.defaulted_text (hfind "description")
  have hread : fields.defaulted "rule" (Data.listOf? (RuleDocument.ofData? format)) [] =
      some sheet.rules := by
    rw [Fields.defaulted, hfind]
    exact hrules
  rw [ofData?, toData_eq, hfields]
  simp [hname, hdescription, hread]

theorem plain_toData (h : sheet.Plain) : (sheet.toData .toml).Plain := by
  rw [toData_eq]
  refine Data.anyLeaf_present ?_
  simp only [parts, List.forall_mem_cons]
  refine ⟨Data.plain_of_text, Data.plain_of_text, ?_, List.forall_mem_nil _⟩
  rintro _ ⟨⟩
  exact Data.anyLeaf_list.mpr (List.forall_mem_map.mpr fun rule hrule =>
    RuleDocument.plain_toData (h.rule hrule))

/-- What is written for a plain sheet, in JSON or in TOML, is read as that sheet; and TOML, which cannot
write a null, can write it. -/
theorem plain_reads_back (sheet : SheetDocument) (h : sheet.Plain) :
    ofData? .json (sheet.toData .json) = some sheet ∧
      ofData? .toml (sheet.toData .toml) = some sheet ∧
      sheet.readsBack = .ok (some true) := by
  refine ⟨ofData?_toData h, ofData?_toData h, ?_⟩
  have hplain := plain_toData h
  have hnull : (sheet.toData .toml).hasNull = false := hplain.anyLeaf fun _ => Data.isNull_of_isPlain
  have halike : sheet.alike sheet = true := hplain.alike_self
  rw [readsBack, hnull, if_neg Bool.false_ne_true, ofData?_toData h, Option.map_some, halike]

end SheetDocument

/-- A sheet with attributes of all three forms, a table of numbers and texts, and a chain in a chain. -/
def lookSheet : SheetDocument where
  name := some "look"
  rules :=
    [{ source := "aiStandard", target := some "RedshiftMaterial", secondary := some "shader",
       attributes := .ofPairs
        [("Kd", .rename "diffuse_weight"), ("color", .fanOut ["diffuse_color", "transl_color"]),
          ("aiSubdivType", .computed (.ofPairs
            [("mode", .constant (.record [("enum", .int 2)])),
              ("level", .expr (.chain [.affine 2.0 (-1.0), .chain [.clampMin 0.5, .splat], .mean])),
              ("kind", .expr (.lookup [(.int 1, .text "linear"), (.text "off", .list [.bool false])]
                none)),
              ("decay", .expr (.lookup [(.int 0, .float 0.5)] (some (.text "quadratic"))))]))] },
      { source := "file", transcode := some "fileTextureName" }]

theorem lookSheet_reads_back :
    lookSheet.Plain ∧ SheetDocument.ofData? .json (lookSheet.toData .json) = some lookSheet ∧
      SheetDocument.ofData? .toml (lookSheet.toData .toml) = some lookSheet ∧
      lookSheet.readsBack = .ok (some true) := by
  have hcomputations : lookSheet.computations =
      [.constant (.record [("enum", .int 2)]),
        .expr (.chain [.affine 2.0 (-1.0), .chain [.clampMin 0.5, .splat], .mean]),
        .expr (.lookup [(.int 1, .text "linear"), (.text "off", .list [.bool false])] none),
        .expr (.lookup [(.int 0, .float 0.5)] (some (.text "quadratic")))] := rfl
  have hnumbers : ∀ x ∈ [2.0, -1.0, (0.5 : Float)], Binary64.isFinite x = true := by decide
  simp only [List.forall_mem_cons] at hnumbers
  obtain ⟨htwo, hone, hhalf, _⟩ := hnumbers
  have hfloat : (Data.float 0.5).Plain ∧ (Data.float 0.5).sorted = .float 0.5 := by
    simp [Data.Plain, Data.anyLeaf, Data.isPlain, Data.sorted, hhalf]
  have hplain : lookSheet.Plain := by
    rw [SheetDocument.Plain, hcomputations]
    simp only [List.forall_mem_cons]
    refine ⟨⟨?_, ?_⟩, ⟨?_, ?_⟩, ⟨?_, ?_⟩, ⟨?_, ?_⟩, List.forall_mem_nil _⟩
    · exact List.forall_mem_singleton.mpr ⟨rfl, rfl⟩
    · exact List.forall_mem_nil _
    · exact List.forall_mem_nil _
    · simp [ComputedDocument.steps, Expr.steps, Expr.stepsOf, Expr.parameters, htwo, hone, hhalf]
    · have hliterals : (ComputedDocument.expr (.lookup
          [(.int 1, .text "linear"), (.text "off", .list [.bool false])] none)).literals =
            [.int 1, .text "off", .text "linear", .list [.bool false]] := rfl
      simp only [hliterals, List.forall_mem_cons]
      exact ⟨⟨rfl, rfl⟩, ⟨rfl, rfl⟩, ⟨rfl, rfl⟩, ⟨rfl, rfl⟩, List.forall_mem_nil _⟩
    · simp [ComputedDocument.steps, Expr.steps, Expr.parameters]
    · have hliterals : (ComputedDocument.expr (.lookup
          [(.int 0, .float 0.5)] (some (.text "quadratic")))).literals =
            [.int 0, .float 0.5, .text "quadratic"] := rfl
      simp only [hliterals, List.forall_mem_cons]
      exact ⟨⟨rfl, rfl⟩, hfloat, ⟨rfl, rfl⟩, List.forall_mem_nil _⟩
    · simp [ComputedDocument.steps, Expr.steps, Expr.parameters]
  exact ⟨hplain, lookSheet.plain_reads_back hplain⟩

end ShaderMigration
