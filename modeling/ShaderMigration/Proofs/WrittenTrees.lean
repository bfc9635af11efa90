import ShaderMigration.NodeSpec.Document
import ShaderMigration.Proofs.SortedDocuments

namespace ShaderMigration

namespace Entries

variable {κ α : Type} [DecidableEq κ] {parts : List (κ × Option α)}

def present (parts : List (κ × Option α)) : List (κ × α) :=
  parts.filterMap fun part => part.2.map fun a => (part.1, a)

omit [DecidableEq κ] in
theorem present_cons (key : κ) (a? : Option α) (rest : List (κ × Option α)) :
    present ((key, a?) :: rest) = (a?.map fun a => (key, a)).toList ++ present rest := by
  cases a? <;> rfl

omit [DecidableEq κ] in
theorem keys_present : (keys (present parts)).Sublist (keys parts) := by
  induction parts with
  | nil => exact .refl _
  | cons part rest ih =>
    obtain ⟨key, a?⟩ := part
    rw [present_cons]
    cases a? with
    | none => exact ih.cons key
    | some a => exact ih.cons_cons key

theorem find?_present (hnodup : (keys parts).Nodup) (key : κ) :
    find? key (present parts) = (find? key parts).join := by
  induction parts with
  | nil => rfl
  | cons part rest ih =>
    obtain ⟨k, a?⟩ := part
    obtain ⟨hk, hrest⟩ := List.nodup_cons.mp hnodup
    rw [present_cons]
    by_cases hkey : k = key
    · subst hkey
      have hnone : find? k (present rest) = none :=
        find?_eq_none_iff.mpr fun hm => hk (keys_present.subset hm)
      cases a? <;> simp [find?, hnone]
    · cases a? <;> simp [find?, hkey, ih hrest]

end Entries

namespace NodeSpec

mutual

/-- Every float in the values that a description assigns, at any depth. -/
def floats : NodeSpec → List Float
  | ⟨_, attrs, inputs, _, feed⟩ => floatsOfEntries attrs ++ floatsOfEntries inputs ++ floatsOfFeed feed

def floatsOfEntries : List (String × SpecValue) → List Float
  | [] => []
  | entry :: rest => floatsOfEntry entry ++ floatsOfEntries rest

def floatsOfEntry : String × SpecValue → List Float
  | (_, value) => floatsOfValue value

def floatsOfValue : SpecValue → List Float
  | .literal value => value.floats
  | .spec spec => floats spec

def floatsOfFeed : Feed → List Float
  | .node spec => floats spec
  | _ => []

end

mutual

/-- Whether no node is assigned to twice under one name. -/
def distinct : NodeSpec → Bool
  | ⟨_, attrs, inputs, _, feed⟩ =>
    decide (Entries.keys attrs).Nodup && distinctEntries attrs &&
      decide (Entries.keys inputs).Nodup && distinctEntries inputs && distinctFeed feed

def distinctEntries : List (String × SpecValue) → Bool
  | [] => true
  | entry :: rest => distinctEntry entry && distinctEntries rest

def distinctEntry : String × SpecValue → Bool
  | (_, value) => distinctValue value

def distinctValue : SpecValue → Bool
  | .literal _ => true
  | .spec spec => distinct spec

def distinctFeed : Feed → Bool
  | .node spec => distinct spec
  | _ => true

end

/-- What is written for the primary input. -/
def feedData? : Feed → Option Data
  | .nothing => none
  | .node spec => some (.record [("Input", spec.toData)])
  | .tagged tag => some (.record [("ref_id", .text tag)])

/-- What is written for the assignments of one kind. -/
def entriesData? (entries : List (String × SpecValue)) : Option Data :=
  if entries.isEmpty then none else some (.record (toDataEntries entries))

def parts (spec : NodeSpec) : List (String × Option Data) :=
  [("type", some (.text spec.type)), ("attrs", entriesData? spec.attrs),
    ("input_list", entriesData? spec.inputs), ("ref_id", spec.tag.map .text),
    ("connected_to", feedData? spec.feed)]

theorem toData_eq (spec : NodeSpec) : spec.toData = .record (Entries.present spec.parts) := by
  obtain ⟨type, attrs, inputs, tag, feed⟩ := spec
  unfold toData
  cases hattrs : attrs.isEmpty <;> cases hinputs : inputs.isEmpty <;> cases tag <;> cases feed <;>
    simp [Entries.present, parts, entriesData?, hattrs, hinputs, toDataFeed, feedData?]

theorem toDataEntries_eq_map (entries : List (String × SpecValue)) :
    toDataEntries entries = entries.map fun entry => (entry.1, toDataValue entry.2) := by
  induction entries with
  | nil => rfl
  | cons entry rest ih => rw [toDataEntries, ih, List.map_cons, toDataEntry]

theorem nodup_parts (spec : NodeSpec) : (Entries.keys spec.parts).Nodup := by
  show ["type", "attrs", "input_list", "ref_id", "connected_to"].Nodup
  decide

section Depths

variable {spec : NodeSpec} {depth : Nat} {name : String}

theorem depth_part (hdepth : spec.toData.depth < depth + 1) {d : Data}
    (hpart : Entries.find? name spec.parts = some (some d)) : d.depth < depth := by
  have hfind : Entries.find? name (Entries.present spec.parts) = some d := by
    rw [Entries.find?_present spec.nodup_parts, hpart, Option.join_some]
  rw [toData_eq] at hdepth
  exact Nat.lt_of_lt_of_le (Data.depth_lt_of_find? hfind) (Nat.le_of_lt_succ hdepth)

theorem depth_entries (hdepth : spec.toData.depth < depth + 1)
    {entries : List (String × SpecValue)}
    (hpart : Entries.find? name spec.parts = some (entriesData? entries)) :
    Data.depthOfMembers (toDataEntries entries) < depth := by
  cases entries with
  | nil =>
    rw [toData_eq, Data.depth] at hdepth
    exact Nat.lt_of_lt_of_le (Nat.succ_pos _) (Nat.le_of_lt_succ hdepth)
  | cons entry rest =>
    have hrecord := depth_part hdepth (hpart.trans (by rw [entriesData?, if_neg (by simp)]))
    rw [Data.depth] at hrecord
    exact Nat.lt_of_succ_lt hrecord

end Depths

section Legible

open Json (Legible legible_text legible_record_iff)

variable {P : Float → Prop} [DecidablePred P]

theorem legible_parts {spec : NodeSpec}
    (h : ∀ part ∈ spec.parts, ∀ d, part.2 = some d → Legible P d) : Legible P spec.toData := by
  rw [toData_eq, legible_record_iff]
  intro member hm
  obtain ⟨part, hpart, heq⟩ := List.mem_filterMap.mp hm
  obtain ⟨d, hd, rfl⟩ := Option.map_eq_some_iff.mp heq
  exact h part hpart d hd

theorem legible_entriesData? {entries : List (String × SpecValue)}
    (h : ∀ entry ∈ entries, Legible P (toDataValue entry.2)) :
    ∀ d, entriesData? entries = some d → Legible P d := by
  intro d hd
  unfold entriesData? at hd
  split at hd
  next => cases hd
  next =>
    obtain rfl := Option.some.inj hd
    rw [toDataEntries_eq_map, legible_record_iff]
    intro member hm
    obtain ⟨entry, he, rfl⟩ := List.mem_map.mp hm
    exact h entry he

mutual

theorem legible_toData : ∀ {spec : NodeSpec}, (∀ x ∈ spec.floats, P x) → Legible P spec.toData
  | ⟨type, attrs, inputs, tag, feed⟩, h => by
    simp only [floats, List.forall_mem_append] at h
    refine legible_parts ?_
    have hattrs := legible_entriesData? (legible_entries h.1.1)
    have hinputs := legible_entriesData? (legible_entries h.1.2)
    have hfeed : ∀ d, feedData? feed = some d → Legible P d := legible_feed h.2
    simp only [parts, List.forall_mem_cons, Option.some.injEq, forall_eq', Option.map_eq_some_iff]
    refine ⟨legible_text type, hattrs, hinputs, ?_, hfeed, List.forall_mem_nil _⟩
    rintro _ ⟨text, _, rfl⟩
    exact legible_text text

theorem legible_entries : ∀ {entries : List (String × SpecValue)},
    (∀ x ∈ floatsOfEntries entries, P x) → ∀ entry ∈ entries, Legible P (toDataValue entry.2)
  | [], _ => List.forall_mem_nil _
  | entry :: rest, h => by
    rw [floatsOfEntries, List.forall_mem_append] at h
    exact List.forall_mem_cons.mpr ⟨legible_entry h.1, legible_entries h.2⟩

theorem legible_entry : ∀ {entry : String × SpecValue},
    (∀ x ∈ floatsOfEntry entry, P x) → Legible P (toDataValue entry.2)
  | (_, .literal _), h => Value.legible_toData h
  | (_, .spec _), h => legible_toData h

theorem legible_feed : ∀ {feed : Feed}, (∀ x ∈ floatsOfFeed feed, P x) →
    ∀ d, feedData? feed = some d → Legible P d
  | .nothing, _, _, hd => by cases hd
  | .node spec, h, _, rfl => by simpa [legible_record_iff] using @legible_toData spec h
  | .tagged tag, _, _, rfl => by simp [legible_record_iff, legible_text]

end

end Legible

end NodeSpec

namespace NodeTree

open Json (Legible legible_list_iff)

def floats (tree : NodeTree) : List Float := tree.roots.flatMap NodeSpec.floats

def distinct (tree : NodeTree) : Bool := tree.roots.all NodeSpec.distinct

theorem legible_toData {P : Float → Prop} [DecidablePred P] {tree : NodeTree}
    (h : ∀ x ∈ tree.floats, P x) : Legible P tree.toData := by
  have hroots : ∀ spec ∈ tree.roots, Legible P spec.toData := fun spec hs =>
    NodeSpec.legible_toData fun x hx => h x (List.mem_flatMap.mpr ⟨spec, hs, hx⟩)
  cases tree with
  | many specs =>
    rw [toData, legible_list_iff]
    intro d hd
    obtain ⟨spec, hs, rfl⟩ := List.mem_map.mp hd
    exact hroots spec hs
  | one spec => exact hroots spec List.mem_cons_self

end NodeTree

end ShaderMigration
