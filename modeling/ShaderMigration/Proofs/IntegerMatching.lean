import ShaderMigration.Expr
import ShaderMigration.Proofs.NearestDoubles

namespace ShaderMigration

open Binary64 (nearest)

namespace Value

/-- A value that is an integer, as a number or as a choice. -/
inductive Holds : Value → Int64 → Prop
  | int (n : Int64) : Holds (int n) n
  | enumeration (n : Int64) : Holds (.scalar (.enumeration n)) n

variable {value other : Value} {a b : Int64}

theorem Holds.numeric?_eq (h : value.Holds a) : value.numeric? = some (Binary64.ofInt64 a) := by
  cases h <;> rfl

/-- Integers are compared by the doubles nearest to them. -/
theorem Holds.sameValue_iff (ha : value.Holds a) (hb : other.Holds b) :
    value.sameValue other = true ↔ nearest a.toInt = nearest b.toInt := by
  unfold sameValue
  rw [ha.numeric?_eq, hb.numeric?_eq]
  exact Binary64.ofInt64_beq_iff a b

end Value

/-- A literal that is read as an integer. -/
def IntegerLiteral (d : Data) (n : Int64) : Prop := ∃ value, Value.ofLiteral d = .ok value ∧ value.Holds n

namespace IntegerLiteral

variable {d : Data} {n : Int64}

theorem of_int {i : Int} (h : (Data.int i).int64? = some n) : IntegerLiteral (.int i) n := by
  refine ⟨.int n, ?_, .int n⟩
  rw [Value.ofLiteral, Value.ofIntLiteral, h]

theorem literal_eq (h : IntegerLiteral d n) : ∃ value, Expr.literal d = .ok value ∧ value.Holds n := by
  obtain ⟨value, hread, hholds⟩ := h
  refine ⟨value, ?_, hholds⟩
  rw [Expr.literal, hread]
  rfl

end IntegerLiteral

namespace Expr

variable {value : Value} {a b : Int64}

theorem evaluate_equals_integer (ha : value.Holds a) {expected : Data}
    (hb : IntegerLiteral expected b) (yes no : Data) :
    (equals expected yes no).evaluate value =
      literal (if nearest a.toInt = nearest b.toInt then yes else no) := by
  obtain ⟨other, hread, hother⟩ := hb.literal_eq
  have hsame := ha.sameValue_iff hother
  rw [evaluate, hread]
  change (if value.sameValue other = true then literal yes else literal no) = _
  simp only [hsame]
  split <;> rfl

/-- The search takes the first key that is rounded to the same integer. -/
theorem find_integer (ha : value.Holds a) {keyOf : Data → Int64} {entries : List (Data × Data)}
    (hkeys : ∀ entry ∈ entries, IntegerLiteral entry.1 (keyOf entry.1)) :
    find value entries = .ok ((entries.find? fun entry =>
      nearest a.toInt = nearest (keyOf entry.1).toInt).map Prod.snd) := by
  induction entries with
  | nil => rfl
  | cons entry rest ih =>
    obtain ⟨key, result⟩ := entry
    obtain ⟨other, hread, hother⟩ := (hkeys (key, result) List.mem_cons_self).literal_eq
    have hsame := ha.sameValue_iff hother
    have hrest := ih fun entry hentry => hkeys entry (List.mem_cons_of_mem _ hentry)
    rw [find, hread]
    change (if value.sameValue other = true then .ok (some result) else find value rest) = _
    rw [hrest, List.find?_cons]
    by_cases hmatch : nearest a.toInt = nearest (keyOf key).toInt
    · rw [if_pos (hsame.mpr hmatch), decide_eq_true hmatch]
      rfl
    · rw [if_neg (mt hsame.mp hmatch), decide_eq_false hmatch]

theorem evaluate_lookup_integer (ha : value.Holds a) {keyOf : Data → Int64}
    {entries : List (Data × Data)} (default : Option Data)
    (hkeys : ∀ entry ∈ entries, IntegerLiteral entry.1 (keyOf entry.1)) :
    (lookup entries default).evaluate value =
      match ((entries.find? fun entry =>
        nearest a.toInt = nearest (keyOf entry.1).toInt).map Prod.snd).or default with
      | some result => literal result
      | none => .error (.noEntry value) := by
  rw [evaluate, find_integer ha hkeys]
  rfl

end Expr

/-- Integers match when they are rounded to the same double: in a comparison, in the choice of a branch
and in the search for the first entry.  An integer of at most 53 bits matches no other one. -/
theorem integers_match_as_doubles (value : Value) (a : Int64) (ha : value.Holds a) :
    (∀ other b, other.Holds b →
      (value.sameValue other = true ↔ nearest a.toInt = nearest b.toInt)) ∧
    (a.toInt.natAbs < 2 ^ 53 → ∀ b : Int64, nearest a.toInt = nearest b.toInt ↔ a = b) ∧
    (∀ expected b yes no, IntegerLiteral expected b →
      (Expr.equals expected yes no).evaluate value =
        Expr.literal (if nearest a.toInt = nearest b.toInt then yes else no)) ∧
    ∀ entries default (keyOf : Data → Int64),
      (∀ entry ∈ entries, IntegerLiteral entry.1 (keyOf entry.1)) →
      (Expr.lookup entries default).evaluate value =
        match ((entries.find? fun entry =>
          nearest a.toInt = nearest (keyOf entry.1).toInt).map Prod.snd).or default with
        | some result => Expr.literal result
        | none => .error (.noEntry value) := by
  refine ⟨fun other b hb => ha.sameValue_iff hb, fun hsmall b => ?_, ?_, ?_⟩
  · rw [Binary64.nearest_eq_iff_of_small hsmall, Int64.toInt_inj]
  · exact fun expected b yes no hb => Expr.evaluate_equals_integer ha hb yes no
  · exact fun entries default keyOf hkeys => Expr.evaluate_lookup_integer ha default hkeys

/-- The kinds of decay of a light by their numbers. -/
def decayTable : List (Data × Data) :=
  [(.int 0, .text "none"), (.int 3, .text "cubic"), (.int 2, .text "quadratic")]

theorem decayTable_quadratic :
    (Expr.lookup decayTable none).evaluate (.int 2) = .ok (.string "quadratic") := by
  have hkeys : ∀ entry ∈ decayTable, IntegerLiteral entry.1 (entry.1.int64?.getD 0) := by
    intro entry hentry
    simp only [decayTable, List.mem_cons, List.not_mem_nil, or_false] at hentry
    rcases hentry with rfl | rfl | rfl <;> exact .of_int rfl
  obtain ⟨_, hexact, _, hlookup⟩ := integers_match_as_doubles (.int 2) 2 (.int 2)
  have hfound : (decayTable.find? fun entry => nearest (2 : Int64).toInt =
      nearest (entry.1.int64?.getD 0).toInt) = some (.int 2, .text "quadratic") := by
    simp only [hexact (by decide)]
    rfl
  rw [hlookup decayTable none (fun key => key.int64?.getD 0) hkeys, hfound]
  rfl

/-- Two integers of 54 bits that are told apart neither by a comparison nor by a search. -/
theorem neighbours_matched :
    (9007199254740992 : Int64) ≠ 9007199254740993 ∧
    (Value.int 9007199254740992).sameValue (.int 9007199254740993) = true ∧
    (Expr.equals (.int 9007199254740993) (.int 1) (.int 0)).evaluate (.int 9007199254740992) =
      .ok (.int 1) ∧
    (Expr.lookup [(.int 9007199254740993, .int 1), (.int 9007199254740992, .int 2)] none).evaluate
      (.int 9007199254740992) = .ok (.int 1) := by
  have hsame : (Value.int 9007199254740992).sameValue (.int 9007199254740993) = true := by
    decide +kernel
  have hfind : Expr.find (.int 9007199254740992)
      [(.int 9007199254740993, .int 1), (.int 9007199254740992, .int 2)] = .ok (some (.int 1)) := by
    change (if (Value.int 9007199254740992).sameValue (.int 9007199254740993) = true then
      .ok (some (.int 1)) else Expr.find (.int 9007199254740992) [(.int 9007199254740992, .int 2)]) = _
    rw [if_pos hsame]
  refine ⟨by decide, hsame, ?_, ?_⟩
  · change (if (Value.int 9007199254740992).sameValue (.int 9007199254740993) = true then
      Expr.literal (.int 1) else Expr.literal (.int 0)) = _
    rw [if_pos hsame]
    rfl
  · rw [Expr.evaluate, hfind]
    rfl

end ShaderMigration
