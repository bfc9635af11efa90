import ShaderMigration.Naming
import Mathlib.Data.Finset.Card

namespace ShaderMigration.Namer

variable {refused refused' : List String} {candidate : String}

theorem suffixed_inj {j k : Nat} : suffixed candidate j = suffixed candidate k ↔ j = k := by
  constructor
  · intro h
    have hdigits : Nat.toDigits 10 j = Nat.toDigits 10 k := by
      rw [← Nat.toList_repr, ← Nat.toList_repr]
      exact congrArg String.toList ((String.append_right_inj _).mp h)
    have hread := congrArg (fun digits => Nat.ofDigitChars 10 digits 0) hdigits
    simpa only [Nat.ofDigitChars_ten_toDigits] using hread
  · intro h
    rw [h]

theorem suffixed_ne (candidate : String) (k : Nat) : suffixed candidate k ≠ candidate := by
  intro h
  have hlength := congrArg String.length h
  simp only [suffixed, String.length_append] at hlength
  have hmark : "_".length = 1 := rfl
  omega

/-- The name that the search comes to by a number of retries. -/
def tried (candidate : String) : Nat → String
  | 0 => candidate
  | k + 1 => suffixed candidate (k + 1)

theorem tried_of_pos (candidate : String) {k : Nat} (hk : 1 ≤ k) :
    tried candidate k = suffixed candidate k := by
  cases k with
  | zero => omega
  | succ k => rfl

theorem tried_injective (candidate : String) : Function.Injective (tried candidate) := by
  intro j k h
  cases j with
  | zero =>
    cases k with
    | zero => rfl
    | succ k => exact absurd h.symm (suffixed_ne candidate (k + 1))
  | succ j =>
    cases k with
    | zero => exact absurd h (suffixed_ne candidate (j + 1))
    | succ k => exact suffixed_inj.mp h

/-- The names before the last retry are refused, each of them on its own account. -/
theorem retries_le_card {names : Finset String} {retries : Nat}
    (hrefused : ∀ j < retries, tried candidate j ∈ names) : retries ≤ names.card :=
  Finset.le_card_of_inj_on_range (tried candidate) hrefused
    fun _ _ _ _ h => tried_injective candidate h

/-- The search stops at the first free name from `k` on, unless it runs out of retries before. -/
theorem firstFree_eq_suffixed (refused : List String) (candidate : String) (retries k : Nat) :
    ∃ m, k ≤ m ∧ m ≤ k + retries ∧ firstFree refused candidate retries k = suffixed candidate m ∧
      (∀ j, k ≤ j → j < m → suffixed candidate j ∈ refused) ∧
        (m < k + retries → suffixed candidate m ∉ refused) := by
  induction retries generalizing k with
  | zero => exact ⟨k, by omega, by omega, rfl, by omega, by omega⟩
  | succ retries ih =>
    unfold firstFree
    split
    next hk =>
      obtain ⟨m, hkm, hm, heq, hbefore, hfree⟩ := ih (k + 1)
      refine ⟨m, by omega, by omega, heq, ?_, fun hlt => hfree (by omega)⟩
      intro j hkj hjm
      by_cases hj : j = k
      · exact hj ▸ hk
      · exact hbefore j (by omega) hjm
    next hk => exact ⟨k, by omega, by omega, rfl, by omega, fun _ => hk⟩

/-- The name is the first of those tried that is free. -/
theorem freeName_eq_tried (refused : List String) (candidate : String) :
    ∃ retries, freeName refused candidate = tried candidate retries ∧
      tried candidate retries ∉ refused ∧ ∀ j < retries, tried candidate j ∈ refused := by
  by_cases hc : candidate ∈ refused
  · obtain ⟨m, hm, _, heq, hbefore, hfree⟩ :=
      firstFree_eq_suffixed refused candidate refused.length 1
    have hrefused : ∀ j < m, tried candidate j ∈ refused := by
      intro j hj
      cases j with
      | zero => exact hc
      | succ j => exact hbefore (j + 1) (by omega) hj
    -- no more retries than refused names, so that the search has not run out of them
    have hcard : m ≤ refused.toFinset.card :=
      retries_le_card fun j hj => List.mem_toFinset.mpr (hrefused j hj)
    have hlength := List.toFinset_card_le refused
    rw [← tried_of_pos candidate hm] at heq hfree
    exact ⟨m, (if_pos hc).trans heq, hfree (by omega), hrefused⟩
  · exact ⟨0, if_neg hc, hc, by omega⟩

theorem freeName_not_mem (refused : List String) (candidate : String) :
    freeName refused candidate ∉ refused := by
  obtain ⟨retries, heq, hfree, _⟩ := freeName_eq_tried refused candidate
  rwa [heq]

theorem freeName_congr (h : ∀ name, name ∈ refused ↔ name ∈ refused') (candidate : String) :
    freeName refused candidate = freeName refused' candidate := by
  obtain ⟨m, heq, hfree, hbefore⟩ := freeName_eq_tried refused candidate
  obtain ⟨m', heq', hfree', hbefore'⟩ := freeName_eq_tried refused' candidate
  have hle : ¬ m < m' := fun hlt => hfree ((h _).mpr (hbefore' m hlt))
  have hge : ¬ m' < m := fun hlt => hfree' ((h _).mp (hbefore m' hlt))
  rw [heq, heq', show m = m' by omega]

end ShaderMigration.Namer
