import ShaderMigration.Binary64
import ShaderMigration.KeyOrder

namespace ShaderMigration

/-- What a structured document denotes.  Records keep their members as written, repeats included. -/
inductive Data where
  | null
  | bool (b : Bool)
  | int (n : Int)
  | float (x : Float)
  | text (s : String)
  | list (items : List Data)
  | record (members : List (String × Data))
deriving Inhabited

namespace Data

mutual

/-- The document with the members of each record in key order, the last of equal keys kept, and an
infinite or undefined number replaced by null. -/
def sorted : Data → Data
  | .float x => if Binary64.isFinite x then .float x else .null
  | .list items => .list (sortedItems items)
  | .record members => .record (sortedMembers members [])
  | other => other

def sortedItems : List Data → List Data
  | [] => []
  | item :: rest => item.sorted :: sortedItems rest

def sortedMembers : List (String × Data) → List (String × Data) → List (String × Data)
  | [], found => found
  | member :: rest, found => sortedMembers rest (sortedMember member found)

def sortedMember : String × Data → List (String × Data) → List (String × Data)
  | (key, value), found => Entries.enter key value.sorted found

end

mutual

/-- Whether a part that is neither a list nor a record has a property. -/
def anyLeaf (p : Data → Bool) : Data → Bool
  | .list items => anyLeafOfItems p items
  | .record members => anyLeafOfMembers p members
  | leaf => p leaf

def anyLeafOfItems (p : Data → Bool) : List Data → Bool
  | [] => false
  | item :: rest => item.anyLeaf p || anyLeafOfItems p rest

def anyLeafOfMembers (p : Data → Bool) : List (String × Data) → Bool
  | [] => false
  | member :: rest => anyLeafOfMember p member || anyLeafOfMembers p rest

def anyLeafOfMember (p : Data → Bool) : String × Data → Bool
  | (_, value) => value.anyLeaf p

end

def isNull : Data → Bool
  | .null => true
  | _ => false

def hasNull (d : Data) : Bool := d.anyLeaf isNull

/-- Whether a document is an integer that needs more than 64 bits. -/
def isWide : Data → Bool
  | .int n => decide (n < Int64.minValue.toInt ∨ (Nat.pow 2 64 : Nat) ≤ n)
  | _ => false

def hasWide (d : Data) : Bool := d.anyLeaf isWide

mutual

/-- How many lists and records are nested in each other. -/
def depth : Data → Nat
  | .list items => depthOfItems items + 1
  | .record members => depthOfMembers members + 1
  | _ => 0

def depthOfItems : List Data → Nat
  | [] => 0
  | item :: rest => max item.depth (depthOfItems rest)

def depthOfMembers : List (String × Data) → Nat
  | [] => 0
  | member :: rest => max (depthOfMember member) (depthOfMembers rest)

def depthOfMember : String × Data → Nat
  | (_, value) => value.depth

end

mutual

/-- Equality of documents: numbers of one form compare as numbers, and a NaN equals nothing. -/
def alike : Data → Data → Bool
  | .null, .null => true
  | .bool a, .bool b => a == b
  | .int m, .int n => m == n
  | .float x, .float y => x == y
  | .text s, .text t => s == t
  | .list xs, .list ys => alikeItems xs ys
  | .record xs, .record ys => alikeMembers xs ys
  | _, _ => false

def alikeItems : List Data → List Data → Bool
  | [], [] => true
  | x :: xs, y :: ys => x.alike y && alikeItems xs ys
  | _, _ => false

def alikeMembers : List (String × Data) → List (String × Data) → Bool
  | [], [] => true
  | x :: xs, y :: ys => alikeMember x y && alikeMembers xs ys
  | _, _ => false

def alikeMember : String × Data → String × Data → Bool
  | (k, x), (l, y) => k == l && x.alike y

end

def number? : Data → Option Float
  | .int n => some (Float.ofInt n)
  | .float x => some x
  | _ => none

/-- The integer of 64 bits that is written without a fraction or an exponent. -/
def int64? : Data → Option Int64
  | .int n => if Int64.minValue.toInt ≤ n ∧ n ≤ Int64.maxValue.toInt then some (Int64.ofInt n) else none
  | _ => none

def bool? : Data → Option Bool
  | .bool b => some b
  | _ => none

def text? : Data → Option String
  | .text s => some s
  | _ => none

def items? : Data → Option (List Data)
  | .list items => some items
  | _ => none

def members? : Data → Option (List (String × Data))
  | .record members => some members
  | _ => none

/-- Reads null as an absent value, and all else by `read`. -/
def optional? {α : Type} (read : Data → Option α) : Data → Option (Option α)
  | .null => some none
  | other => (read other).map some

end Data

end ShaderMigration
