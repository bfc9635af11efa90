import ShaderMigration.NodeSpec.Document
import ShaderMigration.Proofs.SortedDocuments
import Mathlib.Data.List.Induction
import Mathlib.Data.List.Sort
import Mathlib.Data.String.Basic

namespace ShaderMigration

namespace Entries

section Pairs

variable {κ α : Type} [DecidableEq κ] {key : κ} {value : α} {entries other : List (κ × α)}

theorem find?_append (key : κ) (entries other : List (κ × α)) :
    find? key (entries ++ other) = (find? key entries).or (find? key other) := by
  induction entries with
  | nil => rfl
  | cons entry rest ih =>
    obtain ⟨k, a⟩ := entry
    by_cases h : k = key <;> simp [find?, h, ih]

theorem mem_of_find? (h : find? key entries = some value) : (key, value) ∈ entries := by
  induction entries with
  | nil => cases h
  | cons entry rest ih =>
    obtain ⟨k, a⟩ := entry
    rw [find?] at h
    split at h
    next hkey =>
      obtain rfl := Option.some.inj h
      exact hkey ▸ List.mem_cons_self
    next => exact List.mem_cons_of_mem _ (ih h)

theorem ofPairs_concat (entries : List (κ × α)) (pair : κ × α) :
    ofPairs (entries ++ [pair]) = put pair.1 pair.2 (ofPairs entries) := by
  simp [ofPairs]

/-- A repeated key keeps its last value. -/
theorem find?_ofPairs (key : κ) (entries : List (κ × α)) :
    find? key (ofPairs entries) = find? key entries.reverse := by
  induction entries using List.reverseRecOn with
  | nil => rfl
  | append_singleton entries pair ih =>
    obtain ⟨k, a⟩ := pair
    rw [ofPairs_concat, List.reverse_concat, find?]
    by_cases h : k = key
    · subst h
      rw [if_pos rfl, find?_put_self]
    · rw [if_neg h, find?_put_of_ne (Ne.symm h), ih]

/-- A repeated key keeps its first place. -/
theorem keys_ofPairs (entries : List (κ × α)) :
    keys (ofPairs entries) = (keys entries).eraseDups := by
  induction entries using List.reverseRecOn with
  | nil => rfl
  | append_singleton entries pair ih =>
    have hkeys : keys (entries ++ [pair]) = keys entries ++ [pair.1] := by simp [keys]
    rw [ofPairs_concat, keys_put, hkeys, List.eraseDups_append, ih]
    simp only [List.mem_eraseDups]
    by_cases h : pair.1 ∈ keys entries
    · simp [List.removeAll, h]
    · simp [List.removeAll, h, List.eraseDups_cons]

end Pairs

end Entries

namespace Data

/-- The keys of a record, each in its first place. -/
def keys : Data → List String
  | .record members => (Entries.keys members).eraseDups
  | _ => []

/-- The value that is written last under a key of a record. -/
def last? (key : String) : Data → Option Data
  | .record members => Entries.find? key members.reverse
  | _ => none

theorem find?_sortedMembers (key : String) (members found : List (String × Data)) :
    Entries.find? key (sortedMembers members found) =
      ((Entries.find? key members.reverse).map sorted).or (Entries.find? key found) := by
  induction members generalizing found with
  | nil => rfl
  | cons member rest ih =>
    obtain ⟨k, value⟩ := member
    rw [sortedMembers, sortedMember, ih, List.reverse_cons, Entries.find?_append,
      Entries.find?_enter]
    cases Entries.find? key rest.reverse with
    | some last => rfl
    | none =>
      by_cases h : k = key <;> simp [Entries.find?, h]

theorem pairwise_keys_sortedMembers (members : List (String × Data)) :
    (Entries.keys (sortedMembers members [])).Pairwise (· < ·) :=
  List.pairwise_map.mpr (inKeyOrder_sortedMembers .nil)

theorem nodup_sortedMembers (members : List (String × Data)) :
    (Entries.keys (sortedMembers members [])).Nodup := (pairwise_keys_sortedMembers members).nodup

theorem mem_keys_sortedMembers_iff {key : String} {members : List (String × Data)} :
    key ∈ Entries.keys (sortedMembers members []) ↔ key ∈ Entries.keys members := by
  have hreverse : key ∈ Entries.keys members.reverse ↔ key ∈ Entries.keys members := by
    simp [Entries.keys]
  have hnone : Entries.find? key (sortedMembers members []) = none ↔
      Entries.find? key members.reverse = none := by
    rw [find?_sortedMembers, Option.or_eq_none_iff, Option.map_eq_none_iff]
    exact and_iff_left rfl
  rw [Entries.find?_eq_none_iff, Entries.find?_eq_none_iff, not_iff_not] at hnone
  exact hnone.trans hreverse

/-- A document in key order gives the same values, themselves in key order. -/
theorem last?_sorted (key : String) (d : Data) : d.sorted.last? key = (d.last? key).map sorted := by
  cases d with
  | record members =>
    have hreverse := Entries.find?_perm (nodup_sortedMembers members)
      (List.reverse_perm (sortedMembers members [])).symm key
    have hfind := find?_sortedMembers key members []
    rw [show Entries.find? key [] = (none : Option Data) from rfl, Option.or_none] at hfind
    exact hreverse.symm.trans hfind
  | float x =>
    rw [sorted]
    split <;> rfl
  | null | bool | int | text | list => rfl

/-- A document in key order has the same keys, in order. -/
theorem keys_sorted (d : Data) : d.sorted.keys = d.keys.insertionSort (· ≤ ·) := by
  cases d with
  | record members =>
    have hleft : (record members).sorted.keys = Entries.keys (sortedMembers members []) := by
      rw [sorted, keys, ← Entries.keys_ofPairs,
        Entries.ofPairs_of_nodup (nodup_sortedMembers members)]
    have hdistinct : (record members).keys.Nodup := by
      rw [keys, ← Entries.keys_ofPairs]
      exact Entries.nodup_keys_ofPairs members
    have hright : ((record members).keys.insertionSort (· ≤ ·)).Pairwise (· < ·) :=
      (List.pairwise_insertionSort (· ≤ ·) _).imp₂ (fun _ _ hle hne => lt_of_le_of_ne hle hne)
        ((List.perm_insertionSort (· ≤ ·) _).nodup_iff.mpr hdistinct)
    rw [hleft]
    refine (pairwise_keys_sortedMembers members).eq_of_mem_iff hright fun key => ?_
    rw [mem_keys_sortedMembers_iff, List.mem_insertionSort, keys, List.mem_eraseDups]
  | float x =>
    rw [sorted]
    split <;> rfl
  | null | bool | int | text | list => rfl

/-- The form in which a document is read: as written, or as a plain value keeps it. -/
def arranged (kept : Bool) (d : Data) : Data := if kept then d.sorted else d

section Arranged

variable (kept : Bool)

theorem last?_arranged (key : String) (d : Data) :
    (d.arranged kept).last? key = (d.last? key).map (arranged kept) := by
  cases kept with
  | true => exact last?_sorted key d
  | false => exact Option.map_id'.symm

theorem arranged_list (items : List Data) :
    (list items).arranged kept = .list (items.map (arranged kept)) := by
  cases kept with
  | true =>
    have hitems : ∀ items : List Data, sortedItems items = items.map sorted := by
      intro items
      induction items with
      | nil => rfl
      | cons item rest ih => rw [sortedItems, ih, List.map_cons]
    exact congrArg list (hitems items)
  | false => exact congrArg list (List.map_id' items).symm

theorem arranged_record (members : List (String × Data)) :
    ∃ members', (record members).arranged kept = .record members' := by
  cases kept with
  | true => exact ⟨_, rfl⟩
  | false => exact ⟨_, rfl⟩

end Arranged

namespace Layout

variable {layout : Layout} {members : List (String × Data)} {found fields : Fields}
  {name key : String} {d : Data}

/-- What is found stays, since no field may be given twice. -/
theorem find?_of_ofMembers? (h : layout.ofMembers? members found = some fields)
    (hfound : Entries.find? name found = some d) : Entries.find? name fields = some d := by
  induction members generalizing found with
  | nil => exact Option.some.inj h ▸ hfound
  | cons member rest ih =>
    obtain ⟨k, value⟩ := member
    rw [ofMembers?] at h
    split at h
    next =>
      split at h
      next => cases h
      next => exact ih h hfound
    next field _ =>
      split at h
      next => cases h
      next hnew =>
        refine ih h ?_
        rw [Entries.find?, if_neg fun heq => by rw [heq, hfound] at hnew; cases hnew]
        exact hfound

theorem find?_of_mem (h : layout.ofMembers? members found = some fields) {field : Field}
    (hmem : (key, d) ∈ members) (hfield : layout.field? key = some field) :
    Entries.find? field.name fields = some d := by
  induction members generalizing found with
  | nil => cases hmem
  | cons member rest ih =>
    obtain ⟨k, value⟩ := member
    rw [ofMembers?] at h
    rcases List.mem_cons.mp hmem with heq | hrest
    · obtain ⟨rfl, rfl⟩ := Prod.mk.inj heq
      simp only [hfield] at h
      split at h
      next => cases h
      next => exact find?_of_ofMembers? h (by simp [Entries.find?])
    · split at h
      next =>
        split at h
        next => cases h
        next => exact ih h hrest
      next =>
        split at h
        next => cases h
        next => exact ih h hrest

theorem exists_mem_of_find? (h : layout.ofMembers? members found = some fields)
    (hfind : Entries.find? name fields = some d) : Entries.find? name found = some d ∨
      ∃ key field, (key, d) ∈ members ∧ layout.field? key = some field ∧ field.name = name := by
  induction members generalizing found with
  | nil => exact Or.inl (Option.some.inj h ▸ hfind)
  | cons member rest ih =>
    obtain ⟨k, value⟩ := member
    have hlater : ∀ {found}, layout.ofMembers? rest found = some fields →
        Entries.find? name found = some d ∨ ∃ key field, (key, d) ∈ (k, value) :: rest ∧
          layout.field? key = some field ∧ field.name = name := by
      intro found h
      refine (ih h).imp_right fun hmem => ?_
      obtain ⟨key, field, hmem, hfield⟩ := hmem
      exact ⟨key, field, List.mem_cons_of_mem _ hmem, hfield⟩
    rw [ofMembers?] at h
    split at h
    next =>
      split at h
      next => cases h
      next => exact hlater h
    next field hfield =>
      split at h
      next => cases h
      next =>
        rcases hlater h with hfound | hmem
        · rw [Entries.find?] at hfound
          split at hfound
          next hname =>
            obtain rfl := Option.some.inj hfound
            exact Or.inr ⟨k, field, List.mem_cons_self, hfield, hname⟩
          next => exact Or.inl hfound
        · exact Or.inr hmem

/-- What a document gives for a field of a record, under its name or an alias; the last counts. -/
def part? (layout : Layout) (name : String) : Data → Option Data
  | .record members => (members.reverse.find? fun member =>
      (layout.field? member.1).map Field.name == some name).map Prod.snd
  | .list items => Entries.find? name ((layout.fields.map Field.name).zip items)
  | _ => none

theorem exists_key_of_part? (h : layout.part? name (.record members) = some d) :
    ∃ key field, layout.field? key = some field ∧ field.name = name ∧
      (record members).last? key = some d := by
  obtain ⟨⟨key, value⟩, hfind, rfl⟩ := Option.map_eq_some_iff.mp h
  obtain ⟨hmember, before, after, hsplit, hbefore⟩ := List.find?_eq_some_iff_append.mp hfind
  obtain ⟨field, hfield, hname⟩ := Option.map_eq_some_iff.mp (beq_iff_eq.mp hmember)
  refine ⟨key, field, hfield, hname, ?_⟩
  -- the last member of the field is the last one of its key
  have hnone : Entries.find? key before = none := by
    rw [Entries.find?_eq_none_iff]
    intro hmem
    obtain ⟨other, hother, heq⟩ := List.mem_map.mp hmem
    have hnot := hbefore other hother
    rw [heq, hfield, Option.map_some, hname, beq_self_eq_true] at hnot
    cases hnot
  rw [last?, hsplit, Entries.find?_append, hnone, Option.none_or, Entries.find?, if_pos rfl]

theorem isSome_part? {field : Field} (hkey : (record members).last? key ≠ none)
    (hfield : layout.field? key = some field) :
    layout.part? field.name (.record members) ≠ none := by
  intro hnone
  refine hkey (Entries.find?_eq_none_iff.mpr fun hmem => ?_)
  obtain ⟨member, hmember, rfl⟩ := List.mem_map.mp hmem
  have hnot := List.find?_eq_none.mp (Option.map_eq_none_iff.mp hnone) member hmember
  rw [hfield, Option.map_some, beq_self_eq_true] at hnot
  exact hnot rfl

/-- The fields of a record are what the document gives for them, in whatever form it is read. -/
theorem find?_fields (kept : Bool) (h : layout.read? (d.arranged kept) = some fields)
    (name : String) :
    Entries.find? name fields = (layout.part? name d).map (arranged kept) := by
  cases d with
  | record members =>
    obtain ⟨members', hmembers⟩ := arranged_record kept members
    have hlast := fun key => last?_arranged kept key (record members)
    rw [hmembers] at h hlast
    cases hpart : layout.part? name (record members) with
    | some value =>
      obtain ⟨key, field, hfield, rfl, hvalue⟩ := exists_key_of_part? hpart
      have hfind := hlast key
      rw [hvalue] at hfind
      have hmem := List.mem_reverse.mp (Entries.mem_of_find? hfind)
      exact find?_of_mem h hmem hfield
    | none =>
      rw [Option.map_none, Option.eq_none_iff_forall_ne_some]
      intro value hvalue
      -- a field that was read has a member, whose key the document gives too
      obtain ⟨key, field, hmem, hfield, rfl⟩ := (exists_mem_of_find? h hvalue).resolve_left nofun
      refine isSome_part? (fun hnone => ?_) hfield hpart
      have hfind := hlast key
      rw [hnone] at hfind
      refine Entries.find?_eq_none_iff.mp hfind ?_
      exact List.mem_map.mpr ⟨(key, value), List.mem_reverse.mpr hmem, rfl⟩
  | list items =>
    rw [arranged_list] at h
    have hfields : (layout.fields.map Field.name).zip (items.map (arranged kept)) = fields := by
      rw [read?, ofItems?] at h
      split at h
      next => cases h
      next => exact Option.some.inj h
    have hzip : (layout.fields.map Field.name).zip (items.map (arranged kept)) =
        ((layout.fields.map Field.name).zip items).map
          fun entry => (entry.1, arranged kept entry.2) := by
      rw [List.zip_map_right]
      rfl
    rw [← hfields, hzip, Entries.find?_map]
    rfl
  | float x =>
    have hnone : layout.read? ((float x).arranged kept) = none := by
      cases kept with
      | false => rfl
      | true =>
        rw [arranged, if_pos rfl, sorted]
        split <;> rfl
    rw [hnone] at h
    cases h
  | null | bool | int | text => cases kept <;> cases h

end Layout

end Data

end ShaderMigration
