import ShaderMigration.Proofs.SortedLiterals
import ShaderMigration.Proofs.WrittenTrees

namespace ShaderMigration

open Data (Layout Fields Arrangement)

namespace NodeSpec

section Parts

variable {arrange : Data → Data} {readSpec? : Data → Option NodeSpec}

theorem readValue?_arrange (harrange : Arrangement arrange) (d : Data) :
    readValue? readSpec? (arrange d) = readValue? readSpec? d := by
  rw [readValue?, readValue?, harrange.sorted]

/-- What is assigned as a value is read as that value, however nested descriptions are read. -/
theorem readValue?_literal {value : Value} (h : ∀ x ∈ value.floats, Binary64.isFinite x = true) :
    readValue? readSpec? value.toData = some (.literal value) := by
  have hread : (Value.ofLiteral value.toData.sorted).toOption = some value := by
    rw [Value.ofLiteral_sorted h]
    rfl
  rw [readValue?, Value.hasMember_type_sorted, hread]
  rfl

theorem alikeEntries_of_find? {entries read : List (String × SpecValue)}
    (h : ∀ entry ∈ entries, ∃ value, Entries.find? entry.1 read = some value ∧
      alikeValue entry.2 value = true) : alikeEntries entries read = true := by
  induction entries with
  | nil => rfl
  | cons entry rest ih =>
    obtain ⟨key, value⟩ := entry
    obtain ⟨⟨value', hfind, halike⟩, hrest⟩ := List.forall_mem_cons.mp h
    rw [alikeEntries, alikeEntry, hfind, ih hrest, Bool.and_true]
    exact halike

/-- Assignments are read back when each of them is, whether they are written or left out. -/
theorem defaulted_entriesData? (harrange : Arrangement arrange) {entries : List (String × SpecValue)}
    (hnodup : (Entries.keys entries).Nodup)
    (h : ∀ entry ∈ entries, ∃ value, readValue? readSpec? (toDataValue entry.2) = some value ∧
      alikeValue entry.2 value = true) {fields : Fields} {name : String}
    (hfield : Entries.find? name fields = (entriesData? entries).map arrange) :
    ∃ read, fields.defaulted name (Data.entriesOf? (readValue? readSpec?)) [] = some read ∧
      entries.length = read.length ∧ alikeEntries entries read = true := by
  unfold Fields.defaulted
  cases entries with
  | nil =>
    rw [hfield]
    exact ⟨[], rfl, rfl, rfl⟩
  | cons entry rest =>
    rw [hfield, entriesData?, if_neg (by simp), Option.map_some, toDataEntries_eq_map]
    have hread : ∀ member ∈ (entry :: rest).map fun entry => (entry.1, toDataValue entry.2),
        ∃ value, readValue? readSpec? (arrange member.2) = some value := by
      intro member hm
      obtain ⟨written, hw, rfl⟩ := List.mem_map.mp hm
      obtain ⟨value, hvalue, _⟩ := h written hw
      exact ⟨value, (readValue?_arrange harrange _).trans hvalue⟩
    obtain ⟨read, hentries, hlength, hfind⟩ :=
      Data.entriesOf?_arrange harrange (by rwa [Entries.keys_map]) hread
    refine ⟨read, hentries, by simpa using hlength.symm, alikeEntries_of_find? fun written hw => ?_⟩
    obtain ⟨value, hvalue, halike⟩ := h written hw
    have hlookup : Entries.find? written.1 (entry :: rest) = some written.2 :=
      (Entries.mem_iff_find? hnodup).mp hw
    refine ⟨value, ?_, halike⟩
    rw [hfind, Entries.find?_map, hlookup, Option.map_some, Option.bind_some,
      readValue?_arrange harrange, hvalue]

theorem defaulted_tag (harrange : Arrangement arrange) {tag : Option String} {fields : Fields}
    (hfield : Entries.find? "ref_id" fields = (tag.map Data.text).map arrange) :
    fields.defaulted "ref_id" (Data.optional? Data.text?) none = some tag := by
  unfold Fields.defaulted
  rw [hfield]
  cases tag with
  | none => rfl
  | some tag => rw [Option.map_some, Option.map_some, harrange.text]; rfl

/-- A description is read back when its assignments and what feeds it are. -/
theorem readWithin?_succ (harrange : Arrangement arrange) {depth : Nat} {spec : NodeSpec}
    (hdistinct : (Entries.keys spec.attrs).Nodup ∧ (Entries.keys spec.inputs).Nodup)
    (hattrs : ∀ entry ∈ spec.attrs, ∃ value,
      readValue? (readWithin? depth) (toDataValue entry.2) = some value ∧
        alikeValue entry.2 value = true)
    (hinputs : ∀ entry ∈ spec.inputs, ∃ value,
      readValue? (readWithin? depth) (toDataValue entry.2) = some value ∧
        alikeValue entry.2 value = true)
    (hfeed : ∀ d, feedData? spec.feed = some d → ∃ read,
      readFeed? (readWithin? depth) (arrange d) = some read ∧ alikeFeed spec.feed read = true) :
    ∃ read, readWithin? (depth + 1) (arrange spec.toData) = some read ∧ spec.alike read = true := by
  have hknown : ∀ member ∈ Entries.present spec.parts, ∃ field, layout.field? member.1 = some field ∧
      field.name = member.1 := by
    intro member hm
    have hname : member.1 ∈ ["type", "attrs", "input_list", "ref_id", "connected_to"] :=
      Entries.keys_present.subset (List.mem_map.mpr ⟨member, hm, rfl⟩)
    generalize member.1 = name at hname
    revert name
    simp [layout, Layout.field?]
  obtain ⟨fields, hfields, hfind⟩ := Layout.read?_arrange harrange
    (Entries.keys_present.nodup spec.nodup_parts) hknown
  simp only [Entries.find?_present spec.nodup_parts] at hfind
  obtain ⟨attrs, hattrs, hattrsLength, hattrsAlike⟩ :=
    defaulted_entriesData? harrange hdistinct.1 hattrs (hfind "attrs")
  obtain ⟨inputs, hinputs, hinputsLength, hinputsAlike⟩ :=
    defaulted_entriesData? harrange hdistinct.2 hinputs (hfind "input_list")
  have htag := defaulted_tag harrange (hfind "ref_id")
  have htype : fields.required "type" Data.text? = some spec.type := by
    rw [Fields.required, hfind "type"]
    show (arrange (.text spec.type)).text? = some spec.type
    rw [harrange.text]
    rfl
  obtain ⟨feed, hfeed, hfeedAlike⟩ : ∃ feed, fields.defaulted "connected_to"
      (readFeed? (readWithin? depth)) .nothing = some feed ∧ alikeFeed spec.feed feed = true := by
    have hfield : Entries.find? "connected_to" fields = (feedData? spec.feed).map arrange :=
      hfind "connected_to"
    unfold Fields.defaulted
    rw [hfield]
    cases hd : feedData? spec.feed with
    | some d => exact hfeed d hd
    | none =>
      refine ⟨.nothing, rfl, ?_⟩
      cases hnothing : spec.feed with
      | nothing => rfl
      | node | tagged => simp [hnothing, feedData?] at hd
  refine ⟨⟨spec.type, attrs, inputs, spec.tag, feed⟩, ?_, ?_⟩
  · rw [toData_eq, readWithin?, hfields]
    simp [htype, hattrs, hinputs, htag, hfeed]
  · obtain ⟨type, attrs', inputs', tag, feed'⟩ := spec
    rw [alike, hattrsAlike, hinputsAlike, hfeedAlike]
    simp [show attrs'.length = _ from hattrsLength, show inputs'.length = _ from hinputsLength]

end Parts

theorem hasMember_type_sorted (spec : NodeSpec) : hasMember "type" spec.toData.sorted = true := by
  have hnodup := Entries.keys_present.nodup spec.nodup_parts
  obtain ⟨members, hmembers, hperm⟩ := Data.arrangement_sorted.record _ hnodup
  have hfind : Entries.find? "type" (Entries.present spec.parts) = some (.text spec.type) := by
    rw [Entries.find?_present spec.nodup_parts]
    rfl
  have hkeys : (Entries.keys members).Nodup :=
    (Entries.keys_perm hperm).nodup_iff.mpr (by rwa [Entries.keys_map])
  rw [toData_eq, hmembers, hasMember, Entries.find?_perm hkeys hperm, Entries.find?_map, hfind]
  rfl

mutual

/-- What is written for a description is read as one that is alike, in whatever order the members of
the document come. -/
theorem readWithin?_arrange : ∀ {spec : NodeSpec} {arrange : Data → Data} {depth : Nat},
    Arrangement arrange → spec.distinct = true → (∀ x ∈ spec.floats, Binary64.isFinite x = true) →
      spec.toData.depth < depth →
        ∃ read, readWithin? depth (arrange spec.toData) = some read ∧ spec.alike read = true
  | ⟨type, attrs, inputs, tag, feed⟩, arrange, 0, _, _, _, hdepth => absurd hdepth (Nat.not_lt_zero _)
  | ⟨type, attrs, inputs, tag, feed⟩, arrange, depth + 1, harrange, hdistinct, hfinite, hdepth => by
    simp only [distinct, Bool.and_eq_true, decide_eq_true_eq] at hdistinct
    obtain ⟨⟨⟨⟨hattrKeys, hattrs⟩, hinputKeys⟩, hinputs⟩, hfeed⟩ := hdistinct
    simp only [floats, List.forall_mem_append] at hfinite
    obtain ⟨⟨hattrFloats, hinputFloats⟩, hfeedFloats⟩ := hfinite
    exact readWithin?_succ harrange ⟨hattrKeys, hinputKeys⟩
      (readValue?_entries hattrs hattrFloats
        (depth_entries hdepth (show Entries.find? "attrs" _ = some (entriesData? attrs) from rfl)))
      (readValue?_entries hinputs hinputFloats
        (depth_entries hdepth (show Entries.find? "input_list" _ = some (entriesData? inputs) from rfl)))
      fun d hd => readFeed?_arrange harrange hfeed hfeedFloats hd (depth_part hdepth
        (show Entries.find? "connected_to" _ = some (some d) from congrArg some hd))

theorem readValue?_entries : ∀ {entries : List (String × SpecValue)} {depth : Nat},
    distinctEntries entries = true → (∀ x ∈ floatsOfEntries entries, Binary64.isFinite x = true) →
      Data.depthOfMembers (toDataEntries entries) < depth → ∀ entry ∈ entries,
        ∃ value, readValue? (readWithin? depth) (toDataValue entry.2) = some value ∧
          alikeValue entry.2 value = true
  | [], _, _, _, _ => List.forall_mem_nil _
  | entry :: rest, depth, hdistinct, hfinite, hdepth => by
    rw [distinctEntries, Bool.and_eq_true] at hdistinct
    rw [floatsOfEntries, List.forall_mem_append] at hfinite
    rw [toDataEntries, Data.depthOfMembers] at hdepth
    obtain ⟨hfirst, hrest⟩ := Nat.max_lt.mp hdepth
    exact List.forall_mem_cons.mpr ⟨readValue?_entry hdistinct.1 hfinite.1 hfirst,
      readValue?_entries hdistinct.2 hfinite.2 hrest⟩

theorem readValue?_entry : ∀ {entry : String × SpecValue} {depth : Nat},
    distinctEntry entry = true → (∀ x ∈ floatsOfEntry entry, Binary64.isFinite x = true) →
      Data.depthOfMember (toDataEntry entry) < depth →
        ∃ value, readValue? (readWithin? depth) (toDataValue entry.2) = some value ∧
          alikeValue entry.2 value = true
  | (_, _), _, hdistinct, hfinite, hdepth => readValue?_value hdistinct hfinite hdepth

theorem readValue?_value : ∀ {value : SpecValue} {depth : Nat},
    distinctValue value = true → (∀ x ∈ floatsOfValue value, Binary64.isFinite x = true) →
      (toDataValue value).depth < depth →
        ∃ read, readValue? (readWithin? depth) (toDataValue value) = some read ∧
          alikeValue value read = true
  | .literal value, _, _, hfinite, _ =>
    ⟨.literal value, readValue?_literal hfinite, value.alike_self⟩
  | .spec spec, depth, hdistinct, hfinite, hdepth => by
    obtain ⟨read, hread, halike⟩ :=
      readWithin?_arrange Data.arrangement_sorted hdistinct hfinite hdepth
    refine ⟨.spec read, ?_, halike⟩
    rw [toDataValue, readValue?, hasMember_type_sorted, hread]
    rfl

theorem readFeed?_arrange : ∀ {feed : Feed} {arrange : Data → Data} {depth : Nat} {d : Data},
    Arrangement arrange → distinctFeed feed = true →
      (∀ x ∈ floatsOfFeed feed, Binary64.isFinite x = true) → feedData? feed = some d →
        d.depth < depth →
          ∃ read, readFeed? (readWithin? depth) (arrange d) = some read ∧ alikeFeed feed read = true
  | .node spec, arrange, depth, _, harrange, hdistinct, hfinite, rfl, hdepth => by
    have hspec : spec.toData.depth < depth := by
      simp only [Data.depth, Data.depthOfMembers, Data.depthOfMember] at hdepth
      omega
    obtain ⟨read, hread, halike⟩ := readWithin?_arrange harrange hdistinct hfinite hspec
    refine ⟨.node read, ?_, halike⟩
    rw [harrange.record_singleton, readFeed?, if_pos rfl, hread]
    rfl
  | .tagged tag, arrange, depth, _, harrange, _, _, rfl, hdepth => by
    refine ⟨.tagged tag, ?_, beq_self_eq_true tag⟩
    rw [harrange.record_singleton, harrange.text, readFeed?, if_neg (by decide), if_pos rfl]
    rfl

end

theorem ofData?_toData {spec : NodeSpec} (hdistinct : spec.distinct = true)
    (hfinite : ∀ x ∈ spec.floats, Binary64.isFinite x = true) :
    ∃ read, ofData? spec.toData = some read ∧ spec.alike read = true :=
  readWithin?_arrange Data.arrangement_id hdistinct hfinite (Nat.lt_succ_self _)

end NodeSpec

namespace NodeTree

open Json (FiniteReadsBack)

theorem mapM_ofData? {specs : List NodeSpec}
    (h : ∀ spec ∈ specs, ∃ read, NodeSpec.ofData? spec.toData = some read ∧ spec.alike read = true) :
    ∃ reads, (specs.map NodeSpec.toData).mapM NodeSpec.ofData? = some reads ∧
      (NodeTree.many specs).alike (.many reads) = true := by
  induction specs with
  | nil => exact ⟨[], rfl, rfl⟩
  | cons spec rest ih =>
    obtain ⟨⟨read, hread, halike⟩, hrest⟩ := List.forall_mem_cons.mp h
    obtain ⟨reads, hreads, halikes⟩ := ih hrest
    refine ⟨read :: reads, by simp [List.mapM_cons, hread, hreads], ?_⟩
    simpa [alike, halike] using halikes

theorem ofData?_toData {tree : NodeTree} (hdistinct : tree.distinct = true)
    (hfinite : ∀ x ∈ tree.floats, Binary64.isFinite x = true) :
    ∃ read, ofData? tree.toData = some read ∧ tree.alike read = true := by
  have hroots : ∀ spec ∈ tree.roots, ∃ read, NodeSpec.ofData? spec.toData = some read ∧
      spec.alike read = true := fun spec hs =>
    NodeSpec.ofData?_toData (List.all_eq_true.mp hdistinct spec hs)
      fun x hx => hfinite x (List.mem_flatMap.mpr ⟨spec, hs, hx⟩)
  cases tree with
  | many specs =>
    obtain ⟨reads, hreads, halike⟩ := mapM_ofData? hroots
    refine ⟨.many reads, ?_, halike⟩
    have hlist : Data.listOf? NodeSpec.ofData? (.list (specs.map NodeSpec.toData)) = some reads :=
      hreads
    rw [toData, ofData?, hlist]
  | one spec =>
    obtain ⟨read, hread, halike⟩ := hroots spec List.mem_cons_self
    refine ⟨.one read, ?_, halike⟩
    have hrecord : Data.listOf? NodeSpec.ofData? spec.toData = none := by
      rw [NodeSpec.toData_eq]
      rfl
    rw [toData, ofData?, hrecord, hread]
    rfl

/-- A tree is read back from its text as an equal one, and each value that is assigned as the same
value. -/
theorem load?_save_alike {tree : NodeTree} (hdistinct : tree.distinct = true)
    (hfinite : ∀ x ∈ tree.floats, Binary64.isFinite x = true)
    (hreads : ∀ x ∈ tree.floats, FiniteReadsBack x) (hdepth : tree.toData.depth ≤ 127) :
    (∃ read, load? tree.save = some read ∧ tree.alike read = true) ∧
      ∀ (readSpec? : Data → Option NodeSpec) (value : Value),
        (∀ x ∈ value.floats, Binary64.isFinite x = true) →
          NodeSpec.readValue? readSpec? value.toData = some (.literal value) := by
  refine ⟨?_, fun _ _ => NodeSpec.readValue?_literal⟩
  have hprinted := Json.printed_of_legible (fun _ h => h) _ (legible_toData hfinite)
  obtain ⟨read, hread, halike⟩ := ofData?_toData hdistinct hfinite
  refine ⟨read, ?_, halike⟩
  rw [load?, save, Json.read?_compact (legible_toData hreads) hdepth (Json.Outline.keeps_whole _),
    Option.bind_some, hprinted, hread]

/-- A mask that is nested out of key order, next to values of several kinds. -/
def masked : NodeTree :=
  .many [
    { type := "merge"
      attrs := [("weights", .literal (.array [.float 0.5, .float 0.25, .float 1.0])),
        ("mask", .spec {
          type := "ellipse"
          attrs := [("size", .literal (.vector3 ⟨1.0, 0.5, 0.0⟩)),
            ("colour", .literal (.color ⟨0.0, 0.25, 1.0⟩))]
          inputs := [("On", .literal (.bool true)), ("Mode", .literal (.scalar (.enumeration 2)))]
          feed := .tagged "grade" })]
      inputs := [("Source", .literal (.connection ⟨.ofNat 7, some "alpha"⟩)),
        ("Slots", .literal (.array [.array [], .int (-3), .string "type"]))]
      tag := some ""
      feed := .node (.ofType "blur") },
    { type := "curves", tag := some "grade", feed := .nothing }]

theorem masked_load?_save : (∃ read, load? masked.save = some read ∧ masked.alike read = true) ∧
    NodeSpec.readValue? NodeSpec.ofData? (Value.color ⟨0.0, 0.25, 1.0⟩).toData =
      some (.literal (.color ⟨0.0, 0.25, 1.0⟩)) := by
  obtain ⟨hread, hliteral⟩ := load?_save_alike (by decide +kernel : masked.distinct = true)
    (by decide +kernel) (by decide +kernel) (by decide +kernel)
  exact ⟨hread, hliteral _ _ (by decide +kernel)⟩

end NodeTree

end ShaderMigration
