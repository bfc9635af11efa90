import ShaderMigration.Graph.Cleanup
import Mathlib.Data.List.Induction
import Mathlib.Data.List.Nodup
import Mathlib.Logic.Relation

namespace ShaderMigration.Replacement

/-- The first node of the chain that leads to a node. -/
def origin (pairs : List Replacement) (node : NodeId) : NodeId :=
  pairs.foldr (fun pair x => if x = pair.new then pair.old else x) node

/-- The node that stands for a node after all replacements. -/
def heir (pairs : List Replacement) (node : NodeId) : NodeId :=
  pairs.foldl (fun x pair => if x = pair.old then pair.new else x) node

/-- No replacement occurs in an earlier pair, and none stands for itself. -/
structure Chronological (pairs : List Replacement) : Prop where
  later : pairs.Pairwise fun first second => second.new ≠ first.old ∧ second.new ≠ first.new
  apart : ∀ pair ∈ pairs, pair.new ≠ pair.old

/-- The last node of the chain of replacements that starts at a node. -/
def LastOfChain (pairs : List Replacement) (first last : NodeId) : Prop :=
  Relation.ReflTransGen (fun old new => ⟨old, new⟩ ∈ pairs) first last ∧
    last ∉ pairs.map Replacement.old

variable {pairs : List Replacement} {pair : Replacement} {node : NodeId}

theorem origin_concat : origin (pairs ++ [pair]) node =
    origin pairs (if node = pair.new then pair.old else node) := by
  rw [origin, List.foldr_append]
  rfl

theorem heir_concat : heir (pairs ++ [pair]) node =
    if heir pairs node = pair.old then pair.new else heir pairs node := by
  rw [heir, List.foldl_append]
  rfl

theorem chronological_concat_iff : Chronological (pairs ++ [pair]) ↔
    Chronological pairs ∧ (∀ earlier ∈ pairs, pair.new ≠ earlier.old ∧ pair.new ≠ earlier.new) ∧
      pair.new ≠ pair.old := by
  constructor
  · intro h
    obtain ⟨later, apart⟩ := h
    obtain ⟨hpairs, _, hcross⟩ := List.pairwise_append.mp later
    exact ⟨⟨hpairs, fun p hp => apart p (by simp [hp])⟩,
      fun earlier he => hcross earlier he pair (by simp), apart pair (by simp)⟩
  · intro h
    obtain ⟨⟨later, apart⟩, hcross, hpair⟩ := h
    refine ⟨List.pairwise_append.mpr ⟨later, List.pairwise_singleton _ _, ?_⟩, ?_⟩
    · intro earlier he last hl
      rw [List.mem_singleton.mp hl]
      exact hcross earlier he
    · intro p hp
      rcases List.mem_append.mp hp with hp | hp
      · exact apart p hp
      · rw [List.mem_singleton.mp hp]
        exact hpair

theorem Chronological.origin_eq (h : Chronological pairs) (hp : pair ∈ pairs) :
    origin pairs pair.new = origin pairs pair.old := by
  induction pairs using List.reverseRecOn with
  | nil => simp at hp
  | append_singleton earlier last ih =>
    obtain ⟨hearlier, hcross, hlast⟩ := chronological_concat_iff.mp h
    rw [origin_concat, origin_concat]
    rcases List.mem_append.mp hp with hp | hp
    · obtain ⟨hold, hnew⟩ := hcross pair hp
      rw [if_neg (Ne.symm hnew), if_neg (Ne.symm hold)]
      exact ih hearlier hp
    · rw [List.mem_singleton.mp hp, if_pos rfl, if_neg (Ne.symm hlast)]

theorem heir_of_not_mem (h : node ∉ pairs.map Replacement.old) : heir pairs node = node := by
  induction pairs with
  | nil => rfl
  | cons first rest ih =>
    obtain ⟨hfirst, hrest⟩ := List.ne_and_not_mem_of_not_mem_cons h
    rw [heir, List.foldl_cons, if_neg hfirst]
    exact ih hrest

theorem heir_path (pairs : List Replacement) (node : NodeId) :
    Relation.ReflTransGen (fun old new => ⟨old, new⟩ ∈ pairs) node (heir pairs node) := by
  induction pairs using List.reverseRecOn with
  | nil => exact .refl
  | append_singleton earlier last ih =>
    have hpath := Relation.ReflTransGen.mono
      (fun old new hm => List.mem_append_left [last] hm) _ _ ih
    rw [heir_concat]
    split
    next heq => exact hpath.tail (heq ▸ List.mem_append_right earlier (List.mem_singleton.mpr rfl))
    next => exact hpath

theorem Chronological.heir_not_mem (h : Chronological pairs) (node : NodeId) :
    heir pairs node ∉ pairs.map Replacement.old := by
  induction pairs using List.reverseRecOn with
  | nil => simp
  | append_singleton earlier last ih =>
    obtain ⟨hearlier, hcross, hlast⟩ := chronological_concat_iff.mp h
    rw [heir_concat]
    simp only [List.map_append, List.map_cons, List.map_nil, List.mem_append, List.mem_singleton]
    split
    next =>
      intro hh
      rcases hh with hm | hm
      · obtain ⟨p, hp, heq⟩ := List.mem_map.mp hm
        exact (hcross p hp).1 heq.symm
      · exact hlast hm
    next hne =>
      intro hh
      rcases hh with hm | hm
      · exact ih hearlier hm
      · exact hne hm

/-- Where no node is replaced twice, a chain has one end, and the heir is that end. -/
theorem Chronological.lastOfChain_iff (h : Chronological pairs)
    (hnodup : (pairs.map Replacement.old).Nodup) {first last : NodeId} :
    LastOfChain pairs first last ↔ last = heir pairs first := by
  have hend : LastOfChain pairs first (heir pairs first) :=
    ⟨heir_path pairs first, h.heir_not_mem first⟩
  have hstuck : ∀ {a b : NodeId}, a ∉ pairs.map Replacement.old →
      Relation.ReflTransGen (fun old new => ⟨old, new⟩ ∈ pairs) a b → a = b := by
    intro a b ha path
    rcases path.cases_head with rfl | ⟨mid, hstep, _⟩
    · rfl
    · exact absurd (List.mem_map.mpr ⟨_, hstep, rfl⟩) ha
  have hunique : Relator.RightUnique fun old new => (⟨old, new⟩ : Replacement) ∈ pairs := by
    intro old new other hnew hother
    have heq := List.inj_on_of_nodup_map hnodup hnew hother rfl
    exact congrArg Replacement.new heq
  constructor
  · intro hh
    obtain ⟨path, hlast⟩ := hh
    rcases Relation.ReflTransGen.total_of_right_unique hunique path hend.1 with hto | hfrom
    · exact hstuck hlast hto
    · exact (hstuck hend.2 hfrom).symm
  · intro hh
    obtain rfl := hh
    exact hend

end ShaderMigration.Replacement
