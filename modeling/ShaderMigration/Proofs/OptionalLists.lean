import Mathlib.Data.List.Forall2

namespace ShaderMigration

variable {α β : Type}

theorem isSome_mapM (f : α → Option β) {as : List α}
    (h : ∀ a ∈ as, (f a).isSome) : (as.mapM f).isSome := by
  induction as with
  | nil => rfl
  | cons a rest ih =>
    obtain ⟨b, hb⟩ := Option.isSome_iff_exists.mp (h a (by simp))
    obtain ⟨bs, hbs⟩ := Option.isSome_iff_exists.mp (ih fun x hx => h x (by simp [hx]))
    simp [List.mapM_cons, hb, hbs]

theorem mapM_option_congr {f g : α → Option β} {as : List α}
    (h : ∀ a ∈ as, f a = g a) : as.mapM f = as.mapM g := by
  induction as with
  | nil => rfl
  | cons a rest ih =>
    rw [List.mapM_cons, List.mapM_cons, h a (by simp), ih fun b hb => h b (by simp [hb])]

theorem mapM_eq_some_map {f : α → Option β} {g : α → β} {as : List α} (h : ∀ a ∈ as, f a = some (g a)) :
    as.mapM f = some (as.map g) :=
  (mapM_option_congr h).trans List.mapM_pure

theorem mapM_map_eq_some {read : β → Option α} {write : α → β} {items : List α}
    (h : ∀ item ∈ items, read (write item) = some item) : (items.map write).mapM read = some items := by
  have hback : items.mapM (read ∘ write) = some (items.map id) := mapM_eq_some_map h
  rw [List.mapM_map, hback, List.map_id]

theorem mapM_eq_none {read : β → Option α} {items : List β} {item : β}
    (hm : item ∈ items) (h : read item = none) : items.mapM read = none := by
  induction items with
  | nil => cases hm
  | cons first rest ih =>
    rw [List.mapM_cons]
    rcases List.mem_cons.mp hm with rfl | hrest
    · rw [h]
      rfl
    · rw [ih hrest]
      cases read first <;> rfl

theorem forall₂_of_mapM {f : α → Option β} {as : List α} {bs : List β}
    (h : as.mapM f = some bs) : List.Forall₂ (fun a b => f a = some b) as bs := by
  induction as generalizing bs with
  | nil =>
    cases h
    exact .nil
  | cons a rest ih =>
    rw [List.mapM_cons] at h
    obtain ⟨b, hb, h⟩ := Option.bind_eq_some_iff.mp h
    obtain ⟨tail, htail, h⟩ := Option.bind_eq_some_iff.mp h
    cases h
    exact .cons hb (ih htail)

theorem mapM_eq_some_mem {f : α → Option β} {as : List α} {bs : List β}
    (h : as.mapM f = some bs) :
    (∀ a ∈ as, ∃ b ∈ bs, f a = some b) ∧ ∀ b ∈ bs, ∃ a ∈ as, f a = some b := by
  have hmatched := forall₂_of_mapM h
  clear h
  induction hmatched with
  | nil => exact ⟨by simp, by simp⟩
  | cons hhead _ ih =>
    obtain ⟨hto, hfrom⟩ := ih
    refine ⟨List.forall_mem_cons.mpr ⟨⟨_, List.mem_cons_self, hhead⟩, fun a ha => ?_⟩,
      List.forall_mem_cons.mpr ⟨⟨_, List.mem_cons_self, hhead⟩, fun b hb => ?_⟩⟩
    · obtain ⟨b, hb, heq⟩ := hto a ha
      exact ⟨b, List.mem_cons_of_mem _ hb, heq⟩
    · obtain ⟨a, ha, heq⟩ := hfrom b hb
      exact ⟨a, List.mem_cons_of_mem _ ha, heq⟩

end ShaderMigration
