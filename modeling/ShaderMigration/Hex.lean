namespace ShaderMigration.Hex

def digit (n : Nat) : Char :=
  if n < 10 then Char.ofNat (48 + n) else Char.ofNat (87 + n)

def value? (c : Char) : Option Nat :=
  if '0' ≤ c ∧ c ≤ '9' then some (c.toNat - 48)
  else if 'a' ≤ c ∧ c ≤ 'f' then some (c.toNat - 87)
  else if 'A' ≤ c ∧ c ≤ 'F' then some (c.toNat - 55)
  else none

/-- The last `width` digits of a number, most significant first. -/
def write : Nat → Nat → List Char
  | 0, _ => []
  | width + 1, n => write width (n / 16) ++ [digit (n % 16)]

def push? (found : Option Nat) (c : Char) : Option Nat :=
  match found, value? c with
  | some n, some d => some (16 * n + d)
  | _, _ => none

def read? (digits : List Char) : Option Nat :=
  digits.foldl push? (some 0)

theorem value?_digit {n : Nat} (h : n < 16) : value? (digit n) = some n := by
  have all : ∀ k : Fin 16, value? (digit k.val) = some k.val := by decide
  exact all ⟨n, h⟩

@[simp] theorem length_write (width n : Nat) : (write width n).length = width := by
  induction width generalizing n with
  | zero => rfl
  | succ width ih => simp [write, ih]

theorem read?_write (width n : Nat) : read? (write width n) = some (n % Nat.pow 16 width) := by
  induction width generalizing n with
  | zero => simp [write, read?, Nat.mod_one]
  | succ width ih =>
    have h := ih (n / 16)
    unfold read? at h ⊢
    rw [write, List.foldl_append, h]
    simp only [List.foldl_cons, List.foldl_nil, push?, value?_digit (Nat.mod_lt n (by decide : 0 < 16))]
    congr 1
    rw [show Nat.pow 16 (width + 1) = 16 * Nat.pow 16 width from Nat.mul_comm _ _, Nat.mod_mul]
    omega

end ShaderMigration.Hex
