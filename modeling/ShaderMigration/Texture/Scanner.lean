import ShaderMigration.Texture.Pattern

namespace ShaderMigration.Texture.Scanner

def byteLength : List Char → Nat
  | [] => 0
  | c :: cs => c.utf8Size + byteLength cs

/-- The parts of a text in front of a byte offset and behind it. -/
def cut? : Nat → List Char → Option (List Char × List Char)
  | 0, cs => some ([], cs)
  | _ + 1, [] => none
  | n + 1, c :: cs =>
    if c.utf8Size ≤ n + 1 then
      (cut? (n + 1 - c.utf8Size) cs).map fun parts => (c :: parts.1, parts.2)
    else none

/-- The byte offset of the first character with a property. -/
def offset? (p : Char → Bool) : List Char → Option Nat
  | [] => none
  | c :: cs => if p c then some 0 else (offset? p cs).map (c.utf8Size + ·)

/-- The name behind a dollar sign, and how many bytes belong to it, its braces included.  An open brace
takes up nothing. -/
def name? : List Char → Option (List Char × Nat)
  | '\x7b' :: braced =>
    match offset? (· == '\x7d') braced with
    | some stop => (cut? stop braced).map fun parts => (parts.1, stop + 2)
    | none => some ([], 0)
  | after =>
    let stop := (offset? (fun c => !isNameChar c) after).getD (byteLength after)
    (cut? stop after).map fun parts => (parts.1, stop)

def value? (env : Environment) (name : List Char) : Option (List Char) :=
  if name.isEmpty then none else (env.find? (String.ofList name)).map String.toList

/-- Writes what stands in front of a dollar sign, and the value of the name behind it or else the name
as it is written.  What is left to scan comes with it. -/
def turn? (env : Environment) (out rest : List Char) (dollar : Nat) :
    Option (List Char × List Char) := do
  let (before, _) ← cut? dollar rest
  let (_, after) ← cut? (dollar + 1) rest
  let (name, length) ← name? after
  let (through, next) ← cut? (dollar + 1 + length) rest
  let (_, written) ← cut? dollar through
  return (out ++ before ++ (value? env name).getD written, next)

@[simp] theorem byteLength_nil : byteLength [] = 0 := rfl

@[simp] theorem byteLength_cons (c : Char) (cs : List Char) :
    byteLength (c :: cs) = c.utf8Size + byteLength cs := rfl

/-- A text is cut exactly where a part of it ends. -/
theorem cut?_eq_some_iff {n : Nat} {cs before after : List Char} :
    cut? n cs = some (before, after) ↔ before ++ after = cs ∧ byteLength before = n := by
  induction cs generalizing n before with
  | nil =>
    cases n <;> cases before <;> simp [cut?, eq_comm]
  | cons c cs ih =>
    cases n with
    | zero =>
      cases before with
      | nil => simp [cut?, eq_comm]
      | cons d before => simp [cut?, Nat.ne_of_gt (Char.utf8Size_pos d)]
    | succ n =>
      cases before with
      | nil =>
        simp only [cut?]
        split <;> simp
      | cons d before =>
        simp only [cut?]
        split
        next hfits =>
          have hbytes : byteLength before = n + 1 - c.utf8Size ↔
              c.utf8Size + byteLength before = n + 1 := by omega
          rw [List.cons_append, List.cons.injEq, byteLength_cons, and_assoc]
          constructor
          · intro h
            obtain ⟨parts, hparts, heq⟩ := Option.map_eq_some_iff.mp h
            cases heq
            obtain ⟨happend, hlength⟩ := ih.mp hparts
            exact ⟨rfl, happend, hbytes.mp hlength⟩
          · rintro ⟨rfl, happend, hlength⟩
            rw [ih.mpr ⟨happend, hbytes.mpr hlength⟩]
            rfl
        next hcuts =>
          simp only [List.cons_append, List.cons.injEq, byteLength_cons]
          constructor
          · nofun
          · rintro ⟨⟨rfl, _⟩, hlength⟩
            omega

theorem cut?_shorter {n : Nat} {cs before after : List Char}
    (h : cut? (n + 1) cs = some (before, after)) : after.length < cs.length := by
  obtain ⟨rfl, hbytes⟩ := cut?_eq_some_iff.mp h
  cases before with
  | nil => cases hbytes
  | cons c before =>
    simp only [List.cons_append, List.length_cons, List.length_append]
    omega

theorem turn?_shorter {env : Environment} {out rest out' next : List Char} {dollar : Nat}
    (h : turn? env out rest dollar = some (out', next)) : next.length < rest.length := by
  simp only [turn?, Option.bind_eq_bind, Option.bind_eq_some_iff, Option.pure_def, Option.some.injEq,
    Prod.mk.injEq] at h
  obtain ⟨_, _, _, _, ⟨_, length⟩, _, ⟨_, _⟩, hcut, _, _, _, rfl⟩ := h
  rw [Nat.add_right_comm] at hcut
  exact cut?_shorter hcut

/-- Scans what is left of a text and puts the result behind what has been written. -/
def scan? (env : Environment) (out rest : List Char) : Option (List Char) :=
  match offset? (· == '$') rest with
  | none => some (out ++ rest)
  | some dollar =>
    match hturn : turn? env out rest dollar with
    | none => none
    | some (out', next) =>
      have : next.length < rest.length := turn?_shorter hturn
      scan? env out' next
termination_by rest.length

/-- Replaces the variables of a path that are set, in one scan from left to right. -/
def expandVars? (env : Environment) (path : String) : Option String :=
  (scan? env [] path.toList).map String.ofList

end ShaderMigration.Texture.Scanner
