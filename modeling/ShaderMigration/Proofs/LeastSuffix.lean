import Mathlib.Algebra.Group.Nat.Defs
import Mathlib.Data.Finset.Card
import Mathlib.Order.Bounds.Defs
import ShaderMigration.Naming.Search
import ShaderMigration.Proofs.FreeNames

namespace ShaderMigration.Namer

variable {overflow : Overflow} {namer : Namer} {candidate oldName : String} {taken : List String}

def refused (namer : Namer) (oldName : String) (taken : List String) : Finset String :=
  insert oldName (namer.issued.toFinset ∪ taken.toFinset)

theorem mem_refused_iff {name : String} :
    name ∈ namer.refused oldName taken ↔ name ∈ oldName :: namer.issued ++ taken := by
  simp [refused]

theorem refuses_iff {name : String} :
    namer.refuses oldName taken name = true ↔ name ∈ namer.refused oldName taken := by
  simp [refuses, refused, or_assoc]

theorem Overflow.next?_ofNat (overflow : Overflow) {n : Nat} (hn : n < 2 ^ 31) :
    overflow.next? (Int32.ofNat n) =
      if overflow = .stops ∧ n + 1 = 2 ^ 31 then none else some (Int32.ofNat (n + 1)) := by
  have hlast : Int32.ofNat n = Int32.maxValue ↔ n + 1 = 2 ^ 31 := by
    rw [← Int32.toInt_inj, Int32.toInt_ofNat_of_lt hn, Int32.toInt_maxValue]
    omega
  have hsucc : Int32.ofNat n + 1 = Int32.ofNat (n + 1) := (Int32.ofNat_add n 1).symm
  simp only [next?, hlast, hsucc]

namespace Search

variable {refuses : String → Bool}

def nth (candidate : String) (k : Nat) : Search := ⟨tried candidate k, Int32.ofNat (k + 1)⟩

/-- A retry leads to the next name, unless the largest number of the word is used up. -/
theorem next?_nth (overflow : Overflow) {k : Nat} (hk : k + 1 < 2 ^ 31) :
    (nth candidate k).next? overflow candidate =
      if overflow = .stops ∧ k + 2 = 2 ^ 31 then none else some (nth candidate (k + 1)) := by
  have hname : candidate ++ "_" ++ toString (Int32.ofNat (k + 1)) = suffixed candidate (k + 1) :=
    congrArg (fun n : Int => candidate ++ "_" ++ toString n) (Int32.toInt_ofNat_of_lt hk)
  simp only [next?, nth, hname, overflow.next?_ofNat hk]
  split
  next => rfl
  next => rfl

theorem Ends.unique {search : Search} {m n : Nat} {x y : String}
    (h : Ends overflow refuses candidate search m x) (h' : Ends overflow refuses candidate search n y) :
    m = n ∧ x = y := by
  induction h generalizing n with
  | free hfree =>
    cases h' with
    | free => exact ⟨rfl, rfl⟩
    | retry hrefused => cases hfree.symm.trans hrefused
  | retry hrefused hnext _ ih =>
    cases h' with
    | free hfree => cases hfree.symm.trans hrefused
    | retry _ hnext' hrest' =>
      cases Option.some.inj (hnext.symm.trans hnext')
      obtain ⟨rfl, rfl⟩ := ih hrest'
      exact ⟨rfl, rfl⟩

/-- From a name before the first free one the search gets there. -/
theorem ends_nth {m k : Nat} (hm : m < 2 ^ 31) (hroom : overflow = .stops → m + 1 < 2 ^ 31)
    (hrefused : ∀ j < m, refuses (tried candidate j) = true)
    (hfree : refuses (tried candidate m) = false) (hk : k ≤ m) :
    Ends overflow refuses candidate (nth candidate k) (m - k) (tried candidate m) := by
  -- backwards from the free name, since a search ends where the search after its first retry does
  induction hk using Nat.decreasingInduction with
  | self =>
    rw [Nat.sub_self]
    exact .free hfree
  | of_succ k hk ih =>
    have hroom' : ¬ (overflow = .stops ∧ k + 2 = 2 ^ 31) := fun ⟨hstops, hlast⟩ => by
      have := hroom hstops
      omega
    have hnext : (nth candidate k).next? overflow candidate = some (nth candidate (k + 1)) := by
      rw [next?_nth overflow (by omega), if_neg hroom']
    have hretries : m - k = m - (k + 1) + 1 := by omega
    rw [hretries]
    exact .retry (hrefused k hk) hnext ih

/-- Where the number must not grow out of its word, the name with the largest one is not reached: there is
no number for the name after it. -/
theorem not_ends_stops {last k n : Nat} {name : String} (hlast : last + 2 = 2 ^ 31)
    (hrefused : ∀ j ≤ last, refuses (tried candidate j) = true) (hk : k ≤ last) :
    ¬ Ends .stops refuses candidate (nth candidate k) n name := by
  induction hk using Nat.decreasingInduction generalizing n with
  | self =>
    intro h
    cases h with
    | free hfree => cases hfree.symm.trans (hrefused last le_rfl)
    | retry _ hnext =>
      rw [next?_nth .stops (by omega), if_pos ⟨rfl, hlast⟩] at hnext
      cases hnext
  | of_succ k hk ih =>
    intro h
    cases h with
    | free hfree => cases hfree.symm.trans (hrefused k hk.le)
    | retry _ hnext hrest =>
      rw [next?_nth .stops (by omega), if_neg fun h => by omega] at hnext
      cases hnext
      exact ih hrest

/-- The search ends at the first free name and nowhere else, if there are numbers enough to get there. -/
theorem ends_start_iff {m n : Nat} {name : String} (hm : m < 2 ^ 31)
    (hrefused : ∀ j < m, refuses (tried candidate j) = true)
    (hfree : refuses (tried candidate m) = false) :
    Ends overflow refuses candidate (start candidate) n name ↔
      (overflow = .stops → m + 1 < 2 ^ 31) ∧ n = m ∧ name = tried candidate m := by
  constructor
  · intro h
    have hroom : overflow = .stops → m + 1 < 2 ^ 31 := by
      rintro rfl
      by_contra hlast
      have hlast' : m - 1 + 2 = 2 ^ 31 := by omega
      exact not_ends_stops hlast' (fun j hj => hrefused j (by omega)) (Nat.zero_le _) h
    exact ⟨hroom, h.unique (ends_nth hm hroom hrefused hfree (Nat.zero_le m))⟩
  · rintro ⟨hroom, rfl, rfl⟩
    exact ends_nth hm hroom hrefused hfree (Nat.zero_le n)

end Search

/-- A candidate that is not free gets the number of the retries, which is the least that makes it so. -/
theorem isLeast_retries {names : Finset String} {retries : Nat} (hc : candidate ∈ names)
    (hfree : tried candidate retries ∉ names) (hrefused : ∀ j < retries, tried candidate j ∈ names) :
    tried candidate retries = suffixed candidate retries ∧
      IsLeast {k | 1 ≤ k ∧ suffixed candidate k ∉ names} retries := by
  have hpos : 1 ≤ retries := by
    by_contra hzero
    have : retries = 0 := by omega
    subst this
    exact hfree hc
  have hname := tried_of_pos candidate hpos
  refine ⟨hname, ⟨hpos, hname ▸ hfree⟩, fun k ⟨hk, hknot⟩ => ?_⟩
  by_contra hlt
  exact hknot (tried_of_pos candidate hk ▸ hrefused k (by omega))

theorem claim_of_unique (hpolicy : namer.policy = .unique) {name : String}
    (hname : freeName (oldName :: namer.issued ++ taken) candidate = name) :
    namer.claim candidate oldName taken = (name, { namer with issued := name :: namer.issued }) := by
  subst hname
  rw [claim, hpolicy]

/-- Under the unique policy the search for a name ends, after at most one retry for each refused name.  It
ends at the candidate if that is free and else at the least suffix that makes it free; this name is the one
that is issued and the only one that goes on record.  Where the number must not grow out of its word, the
search is given up only if it comes to the last one. -/
theorem claim_leastSuffix (namer : Namer) (hpolicy : namer.policy = .unique)
    (candidate oldName : String) (taken : List String)
    (hfew : (namer.refused oldName taken).card < 2 ^ 31) :
    ∃ retries name, ∃ after : Namer, retries ≤ (namer.refused oldName taken).card ∧
      (∀ overflow n x later, ClaimsBySearch overflow namer candidate oldName taken n x later ↔
        (overflow = .stops → retries + 1 < 2 ^ 31) ∧ n = retries ∧ x = name ∧ later = after) ∧
      namer.claim candidate oldName taken = (name, after) ∧
      after = { namer with issued := name :: namer.issued } ∧ name ∉ namer.refused oldName taken ∧
      (candidate ∉ namer.refused oldName taken → retries = 0 ∧ name = candidate) ∧
      (candidate ∈ namer.refused oldName taken → name = suffixed candidate retries ∧
        IsLeast {k | 1 ≤ k ∧ suffixed candidate k ∉ namer.refused oldName taken} retries) := by
  obtain ⟨retries, hname, hfree, hrefused⟩ :=
    freeName_eq_tried (oldName :: namer.issued ++ taken) candidate
  simp only [← mem_refused_iff] at hfree hrefused
  have hle : retries ≤ (namer.refused oldName taken).card := retries_le_card hrefused
  refine ⟨retries, tried candidate retries, _, hle, fun overflow n x later => ?_,
    claim_of_unique hpolicy hname, rfl, hfree, fun hc => ?_,
    fun hc => isLeast_retries hc hfree hrefused⟩
  · have hends : Search.Ends overflow (namer.refuses oldName taken) candidate (.start candidate) n x ↔
        (overflow = .stops → retries + 1 < 2 ^ 31) ∧ n = retries ∧ x = tried candidate retries :=
      Search.ends_start_iff (hle.trans_lt hfew) (fun j hj => refuses_iff.mpr (hrefused j hj))
        (Bool.eq_false_iff.mpr fun h => hfree (refuses_iff.mp h))
    rw [ClaimsBySearch, hpolicy]
    constructor
    · rintro ⟨h, rfl⟩
      obtain ⟨hroom, rfl, rfl⟩ := hends.mp h
      exact ⟨hroom, rfl, rfl, rfl⟩
    · rintro ⟨hroom, rfl, rfl, rfl⟩
      exact ⟨hends.mpr ⟨hroom, rfl, rfl⟩, rfl⟩
  · cases retries with
    | zero => exact ⟨rfl, rfl⟩
    | succ k => exact absurd (hrefused 0 (Nat.succ_pos k)) hc

/-- The old name, which is taken too, a taken name and two on record are refused, and one retry for each of
them leads to a free name. -/
theorem claim_leastSuffix_mat :
    (refused ⟨.unique, ["mat_1", "mat_3"]⟩ "mat" ["mat", "mat_2"]).card = 4 ∧
      ∀ overflow : Overflow,
        ClaimsBySearch overflow ⟨.unique, ["mat_1", "mat_3"]⟩ "mat" "mat" ["mat", "mat_2"]
          4 "mat_4" ⟨.unique, ["mat_4", "mat_1", "mat_3"]⟩ := by
  have hcard : (refused ⟨.unique, ["mat_1", "mat_3"]⟩ "mat" ["mat", "mat_2"]).card = 4 := by decide
  have hissued : claim ⟨.unique, ["mat_1", "mat_3"]⟩ "mat" "mat" ["mat", "mat_2"] =
      ("mat_4", ⟨.unique, ["mat_4", "mat_1", "mat_3"]⟩) := by decide
  obtain ⟨retries, name, after, _, hsearch, hclaim, _, _, _, hleast⟩ :=
    claim_leastSuffix ⟨.unique, ["mat_1", "mat_3"]⟩ rfl "mat" "mat" ["mat", "mat_2"]
      (by rw [hcard]; decide)
  obtain ⟨hname, hafter⟩ := Prod.mk.inj (hissued.symm.trans hclaim)
  have hsuffix : suffixed "mat" 4 = suffixed "mat" retries :=
    (show suffixed "mat" 4 = "mat_4" by decide).trans (hname.trans (hleast (by decide)).1)
  have hretries : 4 = retries := suffixed_inj.mp hsuffix
  refine ⟨hcard, fun overflow => (hsearch overflow _ _ _).mpr ⟨fun _ => ?_, hretries, hname, hafter⟩⟩
  rw [← hretries]
  decide

end ShaderMigration.Namer
