import ShaderMigration.Hex

namespace ShaderMigration

/-- The name of a node, meaningful only to the scene that issued it. -/
structure NodeId where
  word : BitVec 128
deriving DecidableEq, Hashable, Inhabited

namespace NodeId

def ofNat (n : Nat) : NodeId := ⟨BitVec.ofNat 128 n⟩

def digits (id : NodeId) : List Char := Hex.write 32 id.word.toNat

def hyphenate (cs : List Char) : List Char :=
  cs.take 8 ++ '-' :: (cs.drop 8).take 4 ++ '-' :: (cs.drop 12).take 4 ++
    '-' :: (cs.drop 16).take 4 ++ '-' :: cs.drop 20

/-- The full text of an id, in lower case with hyphens. -/
def text (id : NodeId) : String := String.ofList (hyphenate id.digits)

/-- The short form used in messages: a number sign and the first eight digits. -/
def label (id : NodeId) : String := String.ofList ('#' :: id.digits.take 8)

instance : ToString NodeId := ⟨label⟩

/-- Removes the hyphens of an 8-4-4-4-12 group, and refuses any other layout. -/
def joinGroups? (cs : List Char) : Option (List Char) :=
  if cs.length = 36 ∧ cs[8]? = some '-' ∧ cs[13]? = some '-' ∧ cs[18]? = some '-' ∧
      cs[23]? = some '-' then
    some (cs.take 8 ++ (cs.drop 9).take 4 ++ (cs.drop 14).take 4 ++ (cs.drop 19).take 4 ++ cs.drop 24)
  else none

def ofDigits? (cs : List Char) : Option NodeId :=
  if cs.length = 32 then (Hex.read? cs).map ofNat else none

def unwrap? (cs : List Char) : Option (List Char) :=
  if cs.length = 32 then some cs
  else if cs.length = 36 then joinGroups? cs
  else if cs.length = 38 ∧ cs.head? = some '\x7b' ∧ cs.getLast? = some '\x7d' then
    joinGroups? ((cs.drop 1).take 36)
  else if cs.length = 45 ∧ cs.take 9 = "urn:uuid:".toList then joinGroups? (cs.drop 9)
  else none

/-- Reads an id in either case: its bare digits, with hyphens, in braces or as a URN. -/
def ofText? (text : String) : Option NodeId :=
  (unwrap? text.toList).bind ofDigits?

end NodeId

end ShaderMigration
