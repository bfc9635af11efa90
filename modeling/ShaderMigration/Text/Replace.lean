namespace ShaderMigration.Text

def occurs (word : List Char) : List Char → Bool
  | [] => word.isEmpty
  | c :: cs => word.isPrefixOf (c :: cs) || occurs word cs

/-- Replaces every occurrence of a word from left to right, in at most `bound` steps. -/
def replaceWithin (word value : List Char) : Nat → List Char → List Char
  | 0, cs => cs
  | _ + 1, [] => []
  | bound + 1, c :: cs =>
    if word.isPrefixOf (c :: cs) then
      value ++ replaceWithin word value bound ((c :: cs).drop word.length)
    else c :: replaceWithin word value bound cs

/-- Replaces every occurrence of a word that is not empty; the replacements are not looked at
again. -/
def replace (word value text : String) : String :=
  String.ofList (replaceWithin word.toList value.toList text.toList.length text.toList)

def contains (word text : String) : Bool := occurs word.toList text.toList

theorem replaceWithin_of_not_occurs {word value cs : List Char} (bound : Nat)
    (h : occurs word cs = false) : replaceWithin word value bound cs = cs := by
  induction cs generalizing bound with
  | nil => cases bound <;> rfl
  | cons c cs ih =>
    obtain ⟨hfirst, hrest⟩ := Bool.or_eq_false_iff.mp h
    cases bound with
    | zero => rfl
    | succ bound => simp [replaceWithin, hfirst, ih bound hrest]

end ShaderMigration.Text
