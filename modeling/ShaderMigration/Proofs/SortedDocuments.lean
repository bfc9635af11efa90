import ShaderMigration.Data.Fields
import ShaderMigration.Proofs.ValueReadBack

namespace ShaderMigration

namespace Entries

variable {κ α : Type} [DecidableEq κ] {entries other : List (κ × α)}

omit [DecidableEq κ] in
theorem keys_perm (h : entries.Perm other) : (keys entries).Perm (keys other) := h.map Prod.fst

/-- What a key is looked up to does not depend on the order, when no key is repeated. -/
theorem find?_perm (hnodup : (keys entries).Nodup) (h : entries.Perm other) (key : κ) :
    find? key entries = find? key other := by
  have hother : (keys other).Nodup := (keys_perm h).nodup_iff.mp hnodup
  refine Option.ext fun value => ?_
  rw [← mem_iff_find? hnodup, ← mem_iff_find? hother, h.mem_iff]

omit [DecidableEq κ] in
theorem keys_map {β : Type} (f : α → β) :
    keys (entries.map fun entry => (entry.1, f entry.2)) = keys entries := by
  simp [keys]

end Entries

namespace Data

section KeyOrder

open Entries (enter enter_perm enter_of_lt mem_of_mem_enter InKeyOrder inKeyOrder_enter)

variable {members found : List (String × Data)}

/-- Members without a repeated key are only reordered. -/
theorem sortedMembers_perm (h : (Entries.keys (members ++ found)).Nodup) :
    (sortedMembers members found).Perm
      ((members.map fun member => (member.1, member.2.sorted)) ++ found) := by
  induction members generalizing found with
  | nil => exact .refl _
  | cons member rest ih =>
    obtain ⟨key, value⟩ := member
    obtain ⟨hnew, hrest⟩ := List.nodup_cons.mp h
    have hperm : (enter key value.sorted found).Perm ((key, value.sorted) :: found) :=
      enter_perm fun hm => hnew (by simp [Entries.keys] at hm ⊢; exact .inr hm)
    have hmiddle : (rest ++ enter key value.sorted found).Perm
        ((key, value.sorted) :: (rest ++ found)) :=
      (hperm.append_left rest).trans List.perm_middle
    have hnodup : (Entries.keys (rest ++ enter key value.sorted found)).Nodup :=
      (Entries.keys_perm hmiddle).nodup_iff.mpr (List.nodup_cons.mpr ⟨hnew, hrest⟩)
    rw [sortedMembers, sortedMember, List.map_cons, List.cons_append]
    exact (ih hnodup).trans ((hperm.append_left _).trans List.perm_middle)

theorem inKeyOrder_sortedMembers (h : InKeyOrder found) :
    InKeyOrder (sortedMembers members found) := by
  induction members generalizing found with
  | nil => exact h
  | cons member rest ih =>
    obtain ⟨key, value⟩ := member
    exact ih (inKeyOrder_enter h)

/-- Members that are in key order, with nothing left to reorder in them, stay as they are. -/
theorem sortedMembers_of_inKeyOrder (h : InKeyOrder (found ++ members))
    (hsorted : ∀ member ∈ members, member.2.sorted = member.2) :
    sortedMembers members found = found ++ members := by
  induction members generalizing found with
  | nil => rw [sortedMembers, List.append_nil]
  | cons member rest ih =>
    obtain ⟨key, value⟩ := member
    obtain ⟨hvalue, hrest⟩ := List.forall_mem_cons.mp hsorted
    have hnew : enter key value.sorted found = found ++ [(key, value)] := by
      rw [show value.sorted = value from hvalue]
      exact enter_of_lt fun member hm =>
        (List.pairwise_append.mp h).2.2 member hm (key, value) List.mem_cons_self
    rw [sortedMembers, sortedMember, hnew, ih (by simpa using h) hrest, List.append_assoc,
      List.singleton_append]

mutual

/-- A document whose members are in key order is not changed any more. -/
theorem sorted_sorted : ∀ d : Data, d.sorted.sorted = d.sorted
  | .null | .bool _ | .int _ | .text _ => rfl
  | .float x => by
    by_cases hx : Binary64.isFinite x = true <;> simp [sorted, hx]
  | .list items => by rw [sorted, sorted, sortedItems_sortedItems items]
  | .record members => by
    have hmembers := @sorted_of_mem_sortedMembers members [] (List.forall_mem_nil _)
    rw [sorted, sorted, sortedMembers_of_inKeyOrder (inKeyOrder_sortedMembers .nil) hmembers,
      List.nil_append]

theorem sortedItems_sortedItems : ∀ items : List Data,
    sortedItems (sortedItems items) = sortedItems items
  | [] => rfl
  | item :: rest => by
    rw [sortedItems, sortedItems, sorted_sorted item, sortedItems_sortedItems rest]

theorem sorted_of_mem_sortedMembers : ∀ (members : List (String × Data))
    {found : List (String × Data)}, (∀ member ∈ found, member.2.sorted = member.2) →
      ∀ member ∈ sortedMembers members found, member.2.sorted = member.2
  | [], _, h => h
  | (key, value) :: rest, found, h => by
    refine sorted_of_mem_sortedMembers rest fun member hm => ?_
    rcases mem_of_mem_enter hm with rfl | hm
    · exact sorted_sorted value
    · exact h member hm

end

end KeyOrder

/-- A way to put the members of records into another order before a document is read: it is done at
every depth, and the key order is the same after it. -/
structure Arrangement (arrange : Data → Data) : Prop where
  text : ∀ s, arrange (.text s) = .text s
  sorted : ∀ d, (arrange d).sorted = d.sorted
  record : ∀ members, (Entries.keys members).Nodup → ∃ arranged,
    arrange (.record members) = .record arranged ∧
      arranged.Perm (members.map fun member => (member.1, arrange member.2))

theorem arrangement_id : Arrangement id :=
  ⟨fun _ => rfl, fun _ => rfl, fun members _ => ⟨members, rfl, by simp⟩⟩

theorem arrangement_sorted : Arrangement Data.sorted where
  text _ := rfl
  sorted := sorted_sorted
  record members hnodup := by
    have hperm := sortedMembers_perm (show (Entries.keys (members ++ [])).Nodup by simpa using hnodup)
    exact ⟨sortedMembers members [], rfl, by simpa using hperm⟩

theorem Arrangement.record_singleton {arrange : Data → Data} (harrange : Arrangement arrange)
    (key : String) (d : Data) : arrange (.record [(key, d)]) = .record [(key, arrange d)] := by
  obtain ⟨arranged, harranged, hperm⟩ := harrange.record [(key, d)] (List.pairwise_singleton _ _)
  rw [harranged, List.perm_singleton.mp hperm]

theorem depth_lt_of_find? {members : List (String × Data)} {key : String} {d : Data}
    (h : Entries.find? key members = some d) : d.depth < (Data.record members).depth := by
  rw [depth, Nat.lt_succ_iff]
  induction members with
  | nil => cases h
  | cons member rest ih =>
    obtain ⟨k, value⟩ := member
    rw [depthOfMembers, depthOfMember]
    rw [Entries.find?] at h
    split at h
    next =>
      obtain rfl := Option.some.inj h
      exact Nat.le_max_left _ _
    next => exact Nat.le_trans (ih h) (Nat.le_max_right _ _)

section Readers

variable {arrange : Data → Data} {members : List (String × Data)}

/-- Members of known names, none of them twice, are all found. -/
theorem Layout.ofMembers?_of_nodup {layout : Layout} {found : Fields}
    (hnodup : (Entries.keys (members ++ found)).Nodup)
    (hknown : ∀ member ∈ members, ∃ field, layout.field? member.1 = some field ∧
      field.name = member.1) :
    layout.ofMembers? members found = some (members.reverse ++ found) := by
  induction members generalizing found with
  | nil => rfl
  | cons member rest ih =>
    obtain ⟨key, value⟩ := member
    obtain ⟨⟨field, hfield, hname⟩, hrest⟩ := List.forall_mem_cons.mp hknown
    obtain rfl : field.name = key := hname
    have hmiddle : (rest ++ (field.name, value) :: found).Perm ((field.name, value) :: (rest ++ found)) :=
      List.perm_middle
    have hnew : Entries.find? field.name found = none := by
      rw [Entries.find?_eq_none_iff]
      intro hm
      exact (List.nodup_cons.mp hnodup).1 (by simp [Entries.keys] at hm ⊢; exact .inr hm)
    rw [ofMembers?, show layout.field? field.name = some field from hfield]
    simp only [hnew]
    rw [ih ((Entries.keys_perm hmiddle).nodup_iff.mpr hnodup) hrest]
    simp

/-- In whatever order the members of a record come, the fields are those that were written. -/
theorem Layout.read?_arrange {layout : Layout} (harrange : Arrangement arrange)
    (hnodup : (Entries.keys members).Nodup)
    (hknown : ∀ member ∈ members, ∃ field, layout.field? member.1 = some field ∧
      field.name = member.1) :
    ∃ fields, layout.read? (arrange (.record members)) = some fields ∧
      ∀ name, Entries.find? name fields = (Entries.find? name members).map arrange := by
  obtain ⟨arranged, harranged, hperm⟩ := harrange.record members hnodup
  have hkeys : (Entries.keys arranged).Nodup :=
    (Entries.keys_perm hperm).nodup_iff.mpr (by rwa [Entries.keys_map])
  refine ⟨arranged.reverse, ?_, fun name => ?_⟩
  · rw [harranged, read?, ofMembers?_of_nodup (by simpa using hkeys), List.append_nil]
    intro member hm
    obtain ⟨written, hw, rfl⟩ := List.mem_map.mp (hperm.mem_iff.mp hm)
    exact hknown written hw
  · have hreverse : (Entries.keys arranged.reverse).Nodup :=
      (Entries.keys_perm arranged.reverse_perm).nodup_iff.mpr hkeys
    rw [Entries.find?_perm hreverse (arranged.reverse_perm.trans hperm), Entries.find?_map]

theorem mapM_members {α : Type} {read : Data → Option α}
    (h : ∀ member ∈ members, ∃ a, read member.2 = some a) :
    ∃ entries, (members.mapM fun member => (read member.2).map fun a => (member.1, a)) =
        some entries ∧ Entries.keys entries = Entries.keys members ∧
      ∀ key, Entries.find? key entries = (Entries.find? key members).bind read := by
  induction members with
  | nil => exact ⟨[], rfl, rfl, fun _ => rfl⟩
  | cons member rest ih =>
    obtain ⟨⟨a, ha⟩, hrest⟩ := List.forall_mem_cons.mp h
    obtain ⟨entries, hentries, hkeys, hfind⟩ := ih hrest
    refine ⟨(member.1, a) :: entries, ?_, ?_, fun key => ?_⟩
    · simp [List.mapM_cons, ha, hentries]
    · rw [Entries.keys_cons, Entries.keys_cons, hkeys]
    · rw [Entries.find?, Entries.find?]
      split
      next => simp [ha]
      next => exact hfind key

/-- In whatever order the members of a map come, its entries are those that were written. -/
theorem entriesOf?_arrange {α : Type} {read : Data → Option α} (harrange : Arrangement arrange)
    (hnodup : (Entries.keys members).Nodup)
    (hread : ∀ member ∈ members, ∃ a, read (arrange member.2) = some a) :
    ∃ entries, entriesOf? read (arrange (.record members)) = some entries ∧
      entries.length = members.length ∧
        ∀ key, Entries.find? key entries = (Entries.find? key members).bind fun d => read (arrange d) := by
  obtain ⟨arranged, harranged, hperm⟩ := harrange.record members hnodup
  have hkeys : (Entries.keys arranged).Nodup :=
    (Entries.keys_perm hperm).nodup_iff.mpr (by rwa [Entries.keys_map])
  have hall : ∀ member ∈ arranged, ∃ a, read member.2 = some a := by
    intro member hm
    obtain ⟨written, hw, rfl⟩ := List.mem_map.mp (hperm.mem_iff.mp hm)
    exact hread written hw
  obtain ⟨entries, hentries, hsame, hfind⟩ := mapM_members hall
  refine ⟨entries, ?_, ?_, fun key => ?_⟩
  · rw [harranged, entriesOf?, members?, Option.bind_some, hentries, Option.map_some,
      Entries.ofPairs_of_nodup (hsame ▸ hkeys)]
  · have hlength := congrArg List.length hsame
    have hlength' := hperm.length_eq
    simp only [Entries.keys, List.length_map] at hlength hlength'
    rw [hlength, hlength']
  · rw [hfind, Entries.find?_perm hkeys hperm, Entries.find?_map, Option.bind_map]
    rfl

end Readers

end Data

end ShaderMigration
