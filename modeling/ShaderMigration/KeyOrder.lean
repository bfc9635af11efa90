import ShaderMigration.Entries

namespace ShaderMigration.Entries

universe u

variable {α : Type u} {key : String} {value : α} {entries : List (String × α)}

/-- Pairs whose keys strictly increase. -/
def InKeyOrder (entries : List (String × α)) : Prop := entries.Pairwise fun a b => a.1 < b.1

/-- Enters a pair in key order; the value of an equal key is replaced. -/
def enter (key : String) (value : α) : List (String × α) → List (String × α)
  | [] => [(key, value)]
  | (k, a) :: rest =>
    if key = k then (key, value) :: rest
    else if key < k then (key, value) :: (k, a) :: rest
    else (k, a) :: enter key value rest

theorem mem_of_mem_enter {entry : String × α} (h : entry ∈ enter key value entries) :
    entry = (key, value) ∨ entry ∈ entries := by
  induction entries with
  | nil => exact .inl (List.mem_singleton.mp h)
  | cons first rest ih =>
    obtain ⟨k, a⟩ := first
    unfold enter at h
    split at h
    next => exact (List.mem_cons.mp h).imp_right (List.mem_cons_of_mem _)
    next =>
      split at h
      next => exact List.mem_cons.mp h
      next =>
        rcases List.mem_cons.mp h with h | h
        · exact .inr (h ▸ List.mem_cons_self)
        · exact (ih h).imp_right (List.mem_cons_of_mem _)

theorem inKeyOrder_enter (h : InKeyOrder entries) : InKeyOrder (enter key value entries) := by
  induction entries with
  | nil => exact List.pairwise_singleton _ _
  | cons first rest ih =>
    obtain ⟨k, a⟩ := first
    obtain ⟨hfirst, hrest⟩ := List.pairwise_cons.mp h
    unfold enter
    split
    next hk => exact List.pairwise_cons.mpr ⟨fun entry hm => hk ▸ hfirst entry hm, hrest⟩
    next hk =>
      split
      next hlt =>
        refine List.pairwise_cons.mpr ⟨fun entry hm => ?_, h⟩
        rcases List.mem_cons.mp hm with rfl | hm
        · exact hlt
        · exact String.lt_trans hlt (hfirst entry hm)
      next hlt =>
        refine List.pairwise_cons.mpr ⟨fun entry hm => ?_, ih hrest⟩
        rcases mem_of_mem_enter hm with rfl | hm
        · exact String.not_le.mp fun hle => hk (String.le_antisymm hle (String.not_lt.mp hlt))
        · exact hfirst entry hm

theorem enter_of_lt (h : ∀ entry ∈ entries, entry.1 < key) :
    enter key value entries = entries ++ [(key, value)] := by
  induction entries with
  | nil => rfl
  | cons entry rest ih =>
    obtain ⟨hfirst, hrest⟩ := List.forall_mem_cons.mp h
    have hne : key ≠ entry.1 := fun heq => String.lt_irrefl key (heq ▸ hfirst)
    have hnot : ¬ key < entry.1 := fun hlt => String.lt_irrefl key (String.lt_trans hlt hfirst)
    rw [enter, if_neg hne, if_neg hnot, ih hrest, List.cons_append]

theorem enter_perm (h : key ∉ keys entries) :
    (enter key value entries).Perm ((key, value) :: entries) := by
  induction entries with
  | nil => exact .refl _
  | cons entry rest ih =>
    obtain ⟨k, a⟩ := entry
    rw [keys_cons, List.mem_cons, not_or] at h
    rw [enter, if_neg h.1]
    split
    next => exact .refl _
    next => exact ((ih h.2).cons _).trans (.swap _ _ _)

theorem find?_enter (key other : String) (value : α) (entries : List (String × α)) :
    find? other (enter key value entries) =
      if key = other then some value else find? other entries := by
  induction entries with
  | nil => rfl
  | cons entry rest ih =>
    obtain ⟨k, a⟩ := entry
    unfold enter
    split
    next hk =>
      subst hk
      by_cases h : key = other <;> simp [find?, h]
    next hk =>
      split
      next => rfl
      next =>
        rw [find?, ih, find?]
        by_cases h : k = other
        · subst h
          simp [hk]
        · simp [h]

end ShaderMigration.Entries
