import ShaderMigration.Json.Printer
import ShaderMigration.Json.Token
import Mathlib.Data.List.TakeWhile

namespace ShaderMigration.Json

/-- The reader of numbers gives a float back for the text that is written for it. -/
def ReadsBack (x : Float) : Prop := number? (floatText x).toList = some (some (.float x))

instance (x : Float) : Decidable (ReadsBack x) := inferInstanceAs (Decidable (_ = _))

section Digits

theorem isWordChar_of_isDigit {c : Char} (h : c.isDigit = true) : isWordChar c = true := by
  simp [isWordChar, Char.isAlphanum, h]

theorem natOfDigits_append (cs : List Char) (c : Char) :
    Decimal.natOfDigits (cs ++ [c]) =
      10 * Decimal.natOfDigits cs + (Decimal.digit? c).getD 0 := by
  simp [Decimal.natOfDigits]

theorem digit?_digitChar {n : Nat} (h : n < 10) : Decimal.digit? n.digitChar = some n := by
  have all : ∀ k : Fin 10, Decimal.digit? k.val.digitChar = some k.val := by decide
  exact all ⟨n, h⟩

theorem natOfDigits_natDigits (n : Nat) : Decimal.natOfDigits (Decimal.natDigits n) = n := by
  unfold Decimal.natDigits
  induction n using Nat.strongRecOn with
  | ind n ih =>
    by_cases h : n < 10
    · rw [Nat.toDigits_of_lt_base h]
      simp [Decimal.natOfDigits, digit?_digitChar h]
    · rw [Nat.toDigits_of_base_le (by decide) (by omega), natOfDigits_append, ih _ (by omega),
        digit?_digitChar (Nat.mod_lt n (by decide)), Option.getD_some]
      omega

/-- Only the number zero is written with a zero in front. -/
theorem head?_natDigits {n : Nat} (h : (Decimal.natDigits n).head? = some '0') :
    (Decimal.natDigits n).length = 1 := by
  unfold Decimal.natDigits at h ⊢
  induction n using Nat.strongRecOn with
  | ind n ih =>
    by_cases hlt : n < 10
    · rw [Nat.toDigits_of_lt_base hlt]
      rfl
    · have hsplit := Nat.toDigits_of_base_le (b := 10) (n := n) (by decide) (by omega)
      have hfront : (Nat.toDigits 10 (n / 10)).head? = some '0' := by
        rw [hsplit, List.head?_append] at h
        cases hd : (Nat.toDigits 10 (n / 10)).head? with
        | none => exact absurd (List.head?_eq_none_iff.mp hd) Nat.toDigits_ne_nil
        | some c => simpa [hd] using h
      have hone := ih _ (by omega) hfront
      -- the digits in front write a positive number, so their first digit is not zero
      obtain ⟨c, hc⟩ := List.length_eq_one_iff.mp hone
      have hvalue := natOfDigits_natDigits (n / 10)
      rw [hc, List.head?_cons, Option.some.injEq] at hfront
      rw [Decimal.natDigits, hc, hfront] at hvalue
      have hzero : Decimal.natOfDigits ['0'] = 0 := rfl
      omega

theorem isDigit_of_mem_natDigits {n : Nat} {c : Char} (h : c ∈ Decimal.natDigits n) :
    c.isDigit = true := Nat.isDigit_of_mem_toDigits (by decide) (by decide) h

theorem takeWhile_natDigits (n : Nat) :
    (Decimal.natDigits n).takeWhile Char.isDigit = Decimal.natDigits n :=
  List.takeWhile_eq_self_iff.mpr fun _ => isDigit_of_mem_natDigits

theorem splitSign_of_isDigit {c : Char} {cs : List Char} (h : c.isDigit = true) :
    splitSign (c :: cs) = (false, c :: cs) := by
  unfold splitSign
  split
  next heq =>
    obtain ⟨rfl, -⟩ := List.cons.inj heq
    exact absurd h (by decide)
  next => rfl

/-- Digits after a sign are read as an integer. -/
theorem number?_natDigits {cs : List Char} {n : Nat} {negative : Bool}
    (h : splitSign cs = (negative, Decimal.natDigits n)) :
    number? cs = some (Number.ofNotation ⟨negative, Decimal.natDigits n, [], 0⟩ true) := by
  have hnonempty : (Decimal.natDigits n).isEmpty = false := by
    simp [Decimal.natDigits, Nat.toDigits_ne_nil]
  have hzero : ((Decimal.natDigits n).head? == some '0' && (Decimal.natDigits n).length != 1) =
      false := by
    rw [Bool.and_eq_false_imp]
    intro hhead
    simp [head?_natDigits (by simpa using hhead)]
  unfold number?
  rw [h]
  simp only [takeWhile_natDigits, hnonempty, hzero, Bool.or_false, Bool.false_eq_true, if_false,
    List.drop_length]
  rfl

/-- An integer of 64 bits, with or without a sign, reads back. -/
theorem number?_intText {n : Int} (hlow : Int64.minValue.toInt ≤ n)
    (hhigh : n < (Nat.pow 2 64 : Nat)) : number? (intText n).toList = some (some (.int n)) := by
  have hmin : Int64.minValue.toInt = -(Nat.pow 2 63 : Nat) := by decide
  rw [intText, String.toList_ofList]
  by_cases hneg : n < 0
  · have hsplit : splitSign ('-' :: Decimal.natDigits n.natAbs) =
        (true, Decimal.natDigits n.natAbs) := rfl
    rw [if_pos hneg, number?_natDigits hsplit]
    have hpositive : 0 < n.natAbs := by omega
    have hle : n.natAbs ≤ Nat.pow 2 63 := by omega
    have hvalue : (-(n.natAbs : Int)) = n := by omega
    simp only [Number.ofNotation, natOfDigits_natDigits, hpositive, hle, hvalue, Bool.not_true,
      Bool.false_eq_true, false_and, and_false, and_self, if_true, if_false]
  · have hsplit : splitSign (Decimal.natDigits n.natAbs) = (false, Decimal.natDigits n.natAbs) := by
      cases hd : Decimal.natDigits n.natAbs with
      | nil => rfl
      | cons c cs =>
        exact splitSign_of_isDigit (isDigit_of_mem_natDigits (n := n.natAbs) (by simp [hd]))
    rw [if_neg hneg, number?_natDigits hsplit]
    have hlt : n.natAbs < Nat.pow 2 64 := by omega
    have hvalue : (n.natAbs : Int) = n := by omega
    simp [Number.ofNotation, natOfDigits_natDigits, hlt, hvalue]

end Digits

section Words

theorem isWordChar_of_exponent? {cs : List Char} {e : Int} (h : exponent? cs = some e) :
    ∀ c ∈ cs, isWordChar c = true := by
  have hdigits : ∀ {ds : List Char} {result : Int},
      (if ds.isEmpty || !ds.all Char.isDigit then none else some result) = some e →
        ∀ c ∈ ds, isWordChar c = true := by
    intro ds result hds c hc
    split at hds
    next => cases hds
    next hnot =>
      simp only [Bool.or_eq_true, not_or, Bool.not_eq_true, Bool.not_eq_false'] at hnot
      exact isWordChar_of_isDigit (List.all_eq_true.mp hnot.2 c hc)
  unfold exponent? at h
  split at h
  next => simp
  next letter rest =>
    split at h
    next hletter =>
      have hfirst : isWordChar letter = true := by
        simp only [Bool.or_eq_true, beq_iff_eq] at hletter
        rcases hletter with rfl | rfl <;> decide
      refine List.forall_mem_cons.mpr ⟨hfirst, ?_⟩
      split at h
      next heq =>
        have hrest := hdigits h
        split at heq
        next =>
          obtain ⟨-, rfl⟩ := Prod.mk.inj heq
          exact List.forall_mem_cons.mpr ⟨by decide, hrest⟩
        next =>
          obtain ⟨-, rfl⟩ := Prod.mk.inj heq
          exact List.forall_mem_cons.mpr ⟨by decide, hrest⟩
        next =>
          obtain ⟨-, rfl⟩ := Prod.mk.inj heq
          exact hrest
    next => cases h

theorem isWordChar_of_drop {cs : List Char}
    (h : ∀ c ∈ cs.drop (cs.takeWhile Char.isDigit).length, isWordChar c = true) :
    ∀ c ∈ cs, isWordChar c = true := by
  intro c hc
  have hsplit : cs.takeWhile Char.isDigit ++ cs.drop (cs.takeWhile Char.isDigit).length = cs :=
    List.prefix_iff_eq_append.mp (List.takeWhile_prefix _)
  rw [← hsplit, List.mem_append] at hc
  rcases hc with hc | hc
  · exact isWordChar_of_isDigit (List.mem_takeWhile_imp hc)
  · exact h c hc

theorem isWordChar_of_tail? {cs : List Char} {found : List Char × Bool × Int}
    (h : tail? cs = some found) : ∀ c ∈ cs, isWordChar c = true := by
  unfold tail? at h
  split at h
  next rest =>
    refine List.forall_mem_cons.mpr ⟨by decide, ?_⟩
    dsimp only at h
    split at h
    next => cases h
    next =>
      obtain ⟨e, he, -⟩ := Option.map_eq_some_iff.mp h
      exact isWordChar_of_drop (isWordChar_of_exponent? he)
  next =>
    obtain ⟨e, he, -⟩ := Option.map_eq_some_iff.mp h
    exact isWordChar_of_exponent? he

theorem isWordChar_of_number? {cs : List Char} {value : Option Number}
    (h : number? cs = some value) : ∀ c ∈ cs, isWordChar c = true := by
  unfold number? at h
  cases hsign : splitSign cs with
  | mk negative body =>
    simp only [hsign] at h
    split at h
    next => cases h
    next =>
      obtain ⟨found, htail, -⟩ := Option.map_eq_some_iff.mp h
      have hbody := isWordChar_of_drop (isWordChar_of_tail? htail)
      unfold splitSign at hsign
      split at hsign
      next =>
        obtain ⟨-, rfl⟩ := Prod.mk.inj hsign
        exact List.forall_mem_cons.mpr ⟨by decide, hbody⟩
      next =>
        obtain ⟨-, rfl⟩ := Prod.mk.inj hsign
        exact hbody

theorem word?_of_number? {cs : List Char} {value : Option Number} (h : number? cs = some value) :
    word? cs = some (.number value) := by
  have hnone : ∀ {word : List Char}, number? word = none → cs ≠ word := by
    intro word hword heq
    rw [heq, hword] at h
    cases h
  unfold word?
  rw [if_neg (hnone (by decide)), if_neg (hnone (by decide)), if_neg (hnone (by decide)), h]
  rfl

end Words

section Strings

/-- Control characters without a short escape are written by their codes. -/
def isCoded (c : Char) : Bool :=
  decide (c.toNat < 0x20) && not (['\x08', '\t', '\n', '\x0c', '\r'].contains c)

def unitOf (c : Char) : Unit16 := if isCoded c then .code c.toNat else .char c

theorem escape_of_isCoded {c : Char} (h : isCoded c = true) :
    escape c = '\\' :: 'u' :: Hex.write 4 c.toNat := by
  simp only [isCoded, Bool.and_eq_true, decide_eq_true_eq, Bool.not_eq_true', List.contains_eq_mem,
    decide_eq_false_iff_not, List.mem_cons, List.not_mem_nil, or_false, not_or] at h
  obtain ⟨hlt, hne⟩ := h
  have hquote : c ≠ '"' := fun heq => by simp [heq] at hlt
  have hslash : c ≠ '\\' := fun heq => by simp [heq] at hlt
  simp [escape, hlt, hne, hquote, hslash]

theorem units?_escape (c : Char) (rest : List Char) :
    units? (escape c ++ rest) = (units? rest).map fun found => (unitOf c :: found.1, found.2) := by
  by_cases hcoded : isCoded c = true
  · have hlt : c.toNat < 0x20 := by
      simp only [isCoded, Bool.and_eq_true, decide_eq_true_eq] at hcoded
      exact hcoded.1
    have hread : Hex.read? (Hex.write 4 c.toNat) = some c.toNat := by
      rw [Hex.read?_write]
      congr 1
      exact Nat.mod_eq_of_lt (Nat.lt_trans hlt (by decide))
    rw [escape_of_isCoded hcoded, unitOf, if_pos hcoded]
    simp only [Hex.write, List.nil_append, List.cons_append] at hread ⊢
    simp only [units?, hread]
  · by_cases hspecial : c ∈ ['"', '\\', '\x08', '\t', '\n', '\x0c', '\r']
    · simp only [List.mem_cons, List.not_mem_nil, or_false] at hspecial
      rcases hspecial with rfl | rfl | rfl | rfl | rfl | rfl | rfl <;>
        simp [escape, units?, escaped?, unitOf, isCoded]
    · simp only [List.mem_cons, List.not_mem_nil, or_false, not_or] at hspecial
      obtain ⟨hquote, hslash, hrest⟩ := hspecial
      have hlow : ¬ c.toNat < 0x20 := by
        intro hlt
        simp [isCoded, hlt, hrest] at hcoded
      rw [unitOf, if_neg hcoded]
      simp [escape, units?, hquote, hslash, hrest, hlow]

theorem joinUnits?_unitOf (c : Char) (us : List Unit16) :
    joinUnits? (unitOf c :: us) = (joinUnits? us).map (c :: ·) := by
  unfold unitOf
  split
  next hcoded =>
    have hlt : c.toNat < 0x20 := by
      simp only [isCoded, Bool.and_eq_true, decide_eq_true_eq] at hcoded
      exact hcoded.1
    have hhigh : ¬ 0xD800 ≤ c.toNat := by omega
    have hlow : ¬ 0xDC00 ≤ c.toNat := by omega
    cases us with
    | nil => simp [joinUnits?, hhigh, Char.ofNat_toNat]
    | cons unit rest =>
      cases unit with
      | char d => simp [joinUnits?, hhigh, Char.ofNat_toNat]
      | code n => simp [joinUnits?, hhigh, hlow, Char.ofNat_toNat]
  next => simp [joinUnits?]

theorem joinUnits?_map_unitOf (cs : List Char) : joinUnits? (cs.map unitOf) = some cs := by
  induction cs with
  | nil => rfl
  | cons c rest ih => rw [List.map_cons, joinUnits?_unitOf, ih, Option.map_some]

theorem units?_flatMap_escape (cs rest : List Char) :
    units? (cs.flatMap escape ++ '"' :: rest) = some (cs.map unitOf, rest) := by
  induction cs with
  | nil => rfl
  | cons c cs ih =>
    rw [List.flatMap_cons, List.append_assoc, units?_escape, ih]
    rfl

theorem token?_quoted (s : String) (rest : List Char) :
    token? ((quoted s).toList ++ rest) = some (.string (some s), rest) := by
  have hquoted : (quoted s).toList ++ rest = '"' :: (s.toList.flatMap escape ++ '"' :: rest) := by
    simp [quoted]
  rw [hquoted, token?, units?_flatMap_escape]
  simp [joinUnits?_map_unitOf]

end Strings

/-- A text puts tokens one after the other, with blanks between them. -/
inductive Spells : List Token → List Char → Prop where
  | done : Spells [] []
  | blank {c : Char} {tokens : List Token} {rest : List Char} (hblank : isBlank c = true)
      (hrest : Spells tokens rest) : Spells tokens (c :: rest)
  | token {c : Char} {cs rest : List Char} {token : Token} {tokens : List Token}
      (hfirst : isBlank c = false) (hread : token? (c :: cs ++ rest) = some (token, rest))
      (hrest : Spells tokens rest) : Spells (token :: tokens) (c :: cs ++ rest)

namespace Spells

variable {tokens : List Token} {cs rest : List Char}

theorem tokensWithin? (h : Spells tokens cs) {bound : Nat} (hbound : tokens.length ≤ bound) :
    tokensWithin? bound cs = some tokens := by
  induction h generalizing bound with
  | done => cases bound <;> rfl
  | blank hblank _ ih =>
    rw [← ih hbound]
    cases bound <;> simp [Json.tokensWithin?, hblank]
  | token hfirst hread _ ih =>
    obtain ⟨bound, rfl⟩ : ∃ n, bound = n + 1 := ⟨bound - 1, by simp at hbound; omega⟩
    rw [List.cons_append] at hread ⊢
    simp [Json.tokensWithin?, hfirst, hread, ih (Nat.le_of_succ_le_succ hbound)]

theorem length_le (h : Spells tokens cs) : tokens.length ≤ cs.length := by
  induction h with
  | done => exact Nat.le_refl _
  | blank _ _ ih => exact Nat.le_succ_of_le ih
  | token _ _ _ ih =>
    simp only [List.length_cons, List.length_append]
    omega

/-- The reader finds the tokens that a text spells. -/
theorem tokens?_eq (h : Spells tokens cs) : tokens? cs = some tokens := h.tokensWithin? h.length_le

theorem mark {c : Char} {token : Token} (hc : punctuation? c = some token)
    (h : Spells tokens rest) : Spells (token :: tokens) (c :: rest) := by
  have hread : token? (c :: rest) = some (token, rest) := by
    have hquote : c ≠ '"' := by
      rintro rfl
      cases hc
    simp [token?, hc]
  have hfirst : isBlank c = false := by
    rw [Bool.eq_false_iff]
    intro hblank
    simp only [isBlank, Bool.or_eq_true, beq_iff_eq] at hblank
    rcases hblank with ((rfl | rfl) | rfl) | rfl <;> cases hc
  exact Spells.token hfirst (show token? (c :: [] ++ rest) = some (token, rest) from hread) h

theorem blanks (hcs : ∀ c ∈ cs, isBlank c = true) (h : Spells tokens rest) :
    Spells tokens (cs ++ rest) := by
  induction cs with
  | nil => exact h
  | cons c cs ih =>
    obtain ⟨hc, hcs⟩ := List.forall_mem_cons.mp hcs
    exact .blank hc (ih hcs)

theorem string (s : String) (h : Spells tokens rest) :
    Spells (.string (some s) :: tokens) ((quoted s).toList ++ rest) := by
  have hquoted : (quoted s).toList = '"' :: (s.toList.flatMap escape ++ ['"']) := by simp [quoted]
  have hread := token?_quoted s rest
  rw [hquoted] at hread ⊢
  exact .token (by decide) hread h

end Spells

/-- The text ends, or goes on with a character that ends a word. -/
def EndsWord (cs : List Char) : Prop := ∀ c ∈ cs.head?, isWordChar c = false

theorem token?_word {word rest : List Char} {token : Token} (hword : word? word = some token)
    (hchars : ∀ c ∈ word, isWordChar c = true) (hends : EndsWord rest) :
    token? (word ++ rest) = some (token, rest) := by
  cases word with
  | nil => cases hword
  | cons c cs =>
    have hc : isWordChar c = true := hchars c (by simp)
    have hquote : c ≠ '"' := by
      rintro rfl
      cases hc
    have hmark : punctuation? c = none := by
      unfold punctuation?
      split <;> first | rfl | cases hc
    have htake : (c :: cs ++ rest).takeWhile isWordChar = c :: cs := by
      rw [List.takeWhile_append_of_pos hchars]
      cases rest with
      | nil => simp
      | cons d ds => simp [hends d (by simp)]
    rw [List.cons_append] at htake ⊢
    simp [token?, hmark, htake, hword]

theorem Spells.word {word rest : List Char} {token : Token} {tokens : List Token}
    (hword : word? word = some token) (hchars : ∀ c ∈ word, isWordChar c = true)
    (hends : EndsWord rest) (h : Spells tokens rest) : Spells (token :: tokens) (word ++ rest) := by
  have hread := token?_word hword hchars hends
  cases word with
  | nil => cases hword
  | cons c cs =>
    have hfirst : isBlank c = false := by
      rw [Bool.eq_false_iff]
      intro hblank
      simp only [isBlank, Bool.or_eq_true, beq_iff_eq] at hblank
      rcases hblank with ((rfl | rfl) | rfl) | rfl <;> cases hchars _ List.mem_cons_self
    exact .token hfirst hread h

theorem Spells.number {cs rest : List Char} {value : Option Number} {tokens : List Token}
    (hnumber : number? cs = some value) (hends : EndsWord rest) (h : Spells tokens rest) :
    Spells (.number value :: tokens) (cs ++ rest) :=
  .word (word?_of_number? hnumber) (isWordChar_of_number? hnumber) hends h

end ShaderMigration.Json
