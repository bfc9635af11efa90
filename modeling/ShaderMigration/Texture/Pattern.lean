import ShaderMigration.Text.Replace

namespace ShaderMigration.Texture

/-- The variables that have a text for their value.  One whose value is not Unicode is not among them: it
counts as unset, since reading it fails like reading a variable that is not there. -/
structure Environment where
  values : List (String × String) := []

namespace Environment

def find? (env : Environment) (name : String) : Option String :=
  (env.values.find? fun entry => entry.1 == name).map Prod.snd

end Environment

inductive Piece where
  /-- Text without a dollar sign. -/
  | plain (cs : List Char)
  /-- A name in braces behind a dollar sign. -/
  | braced (name : List Char)
  /-- A dollar sign and the letters, digits and underscores behind it, of which there may be none. -/
  | bare (name : List Char)
  /-- A dollar sign in front of a brace that is never closed. -/
  | lone
deriving DecidableEq, Repr

def isNameChar (c : Char) : Bool := c.isAlphanum || c == '_'

namespace Piece

def text : Piece → List Char
  | plain cs => cs
  | braced name => '$' :: '\x7b' :: name ++ ['\x7d']
  | bare name => '$' :: name
  | lone => ['$']

def nameOf? : Piece → Option (List Char)
  | braced name => if name.isEmpty then none else some name
  | bare name => if name.isEmpty then none else some name
  | _ => none

/-- What a piece becomes: the value of its variable if that is set, else the piece as written. -/
def expand (env : Environment) (piece : Piece) : List Char :=
  match (piece.nameOf?.bind fun name => env.find? (String.ofList name)) with
  | some value => value.toList
  | none => piece.text

def behindDollar : List Char → Piece
  | '\x7b' :: rest =>
    let name := rest.takeWhile (· != '\x7d')
    if name.length < rest.length then braced name else lone
  | rest => bare (rest.takeWhile isNameChar)

/-- The first piece of a text that is not empty. -/
def first : List Char → Piece
  | '$' :: rest => behindDollar rest
  | cs => plain (cs.takeWhile (· != '$'))

theorem drop_length_takeWhile {p : Char → Bool} (cs : List Char) :
    cs.drop (cs.takeWhile p).length = cs.dropWhile p := by
  have hdrop := congrArg (List.drop (cs.takeWhile p).length)
    (List.takeWhile_append_dropWhile (p := p) (l := cs))
  rw [List.drop_left] at hdrop
  exact hdrop.symm

theorem takeWhile_append_drop {p : Char → Bool} (cs : List Char) :
    cs.takeWhile p ++ cs.drop (cs.takeWhile p).length = cs := by
  rw [drop_length_takeWhile, List.takeWhile_append_dropWhile]

theorem getElem?_length_takeWhile {p : Char → Bool} {cs : List Char}
    (h : (cs.takeWhile p).length < cs.length) :
    ∃ c, cs[(cs.takeWhile p).length]? = some c ∧ p c = false := by
  induction cs with
  | nil => simp at h
  | cons c rest ih =>
    by_cases hc : p c
    · simp only [List.takeWhile_cons, hc, if_true, List.length_cons, Nat.add_lt_add_iff_right] at h
      simpa [List.takeWhile_cons, hc] using ih h
    · exact ⟨c, by simp [hc], by simpa using hc⟩

theorem text_behindDollar (cs : List Char) :
    (behindDollar cs).text ++ cs.drop ((behindDollar cs).text.length - 1) = '$' :: cs := by
  unfold behindDollar
  split
  next rest =>
    dsimp only
    split
    next h =>
      obtain ⟨c, hget, hc⟩ := getElem?_length_takeWhile h
      have hbrace : c = '\x7d' := by simpa using hc
      obtain ⟨hlt, hval⟩ := List.getElem?_eq_some_iff.mp hget
      have hsplit := takeWhile_append_drop (p := (· != '\x7d')) rest
      rw [List.drop_eq_getElem_cons hlt, hval, hbrace] at hsplit
      have hlen : (text (braced (rest.takeWhile (· != '\x7d')))).length - 1 =
          (rest.takeWhile (· != '\x7d')).length + 2 := by
        simp [text]
      rw [hlen]
      simp only [text, List.cons_append, List.append_assoc, List.nil_append, List.drop_succ_cons,
        List.cons.injEq, true_and]
      exact hsplit
    next => simp [text]
  next => simp [text, takeWhile_append_drop]

theorem text_first (c : Char) (cs : List Char) :
    (first (c :: cs)).text ++ (c :: cs).drop (first (c :: cs)).text.length = c :: cs := by
  unfold first
  split
  next rest heq =>
    cases heq
    have h := text_behindDollar cs
    have hpos : 0 < (behindDollar cs).text.length := by
      unfold behindDollar
      split
      next => dsimp only; split <;> simp [text]
      next => simp [text]
    obtain ⟨n, hn⟩ := Nat.exists_eq_add_one_of_ne_zero (Nat.pos_iff_ne_zero.mp hpos)
    simpa [hn] using h
  next => simpa [text] using takeWhile_append_drop (p := (· != '$')) (c :: cs)

theorem length_text_first_pos (c : Char) (cs : List Char) : 0 < (first (c :: cs)).text.length := by
  unfold first
  split
  next rest heq =>
    unfold behindDollar
    split
    next => dsimp only; split <;> simp [text]
    next => simp [text]
  next _ hne =>
    have hc : c ≠ '$' := fun h => hne cs (by rw [h])
    simp [text, hc]

def split : List Char → List Piece
  | [] => []
  | c :: cs => first (c :: cs) :: split ((c :: cs).drop (first (c :: cs)).text.length)
termination_by cs => cs.length
decreasing_by
  have := length_text_first_pos c cs
  simp only [List.length_drop, List.length_cons]
  omega

/-- The pieces of a text spell it. -/
theorem texts_split (cs : List Char) : (split cs).flatMap text = cs := by
  fun_induction split cs with
  | case1 => rfl
  | case2 c cs ih => rw [List.flatMap_cons, ih, text_first]

end Piece

/-- Replaces the variables of a path that are set; the values are not looked at again. -/
def expandVars (env : Environment) (path : String) : String :=
  String.ofList ((Piece.split path.toList).flatMap (Piece.expand env))

/-- Replaces the UV tile tokens of a path by the wildcard. -/
def expandTiles (path : String) : String :=
  Text.replace "<V>" "*" (Text.replace "<U>" "*" (Text.replace "<UDIM>" "*" path))

end ShaderMigration.Texture
