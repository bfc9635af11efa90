import ShaderMigration.Value

namespace ShaderMigration

/-- A slot that reads an output: the attribute of `parent`, or one slot of it, on a channel. -/
structure Consumer where
  parent : NodeId
  attr : String
  index : Option Nat
  channel : Option String
deriving DecidableEq

/-- What a resolver asks of a memory.  When an answer is forgotten is for the memory to decide. -/
class Memory (M : Type) where
  empty : Nat → M
  get : M → NodeId → Option (List Consumer) × M
  put : M → NodeId → List Consumer → M
  clear : M → M

/-- An empty memory; a capacity of zero means that there is none. -/
def Memory.ofCapacity? {M : Type} [Memory M] (capacity : Nat) : Option M :=
  if capacity = 0 then none else some (Memory.empty capacity)

structure Memo where
  capacity : Nat
  entries : List (NodeId × List Consumer) := []

namespace Memo

def size (memo : Memo) : Nat := memo.entries.length

def others (memo : Memo) (node : NodeId) : List (NodeId × List Consumer) :=
  memo.entries.filter fun entry => entry.1 != node

/-- The answer for a node, and the memo with that answer used last. -/
def get? (memo : Memo) (node : NodeId) : Option (List Consumer × Memo) :=
  (memo.entries.find? fun entry => entry.1 == node).map fun entry =>
    (entry.2, { memo with entries := entry :: memo.others node })

/-- Remembers an answer, at the cost of the one used longest ago if there is no room. -/
def put (memo : Memo) (node : NodeId) (consumers : List Consumer) : Memo :=
  { memo with entries := (node, consumers) :: (memo.others node).take (memo.capacity - 1) }

def clear (memo : Memo) : Memo := { memo with entries := [] }

@[default_instance]
instance : Memory Memo where
  empty capacity := { capacity }
  get memo node :=
    match memo.get? node with
    | some (hit, later) => (some hit, later)
    | none => (none, memo)
  put := put
  clear := clear

def ofCapacity? (capacity : Nat) : Option Memo := Memory.ofCapacity? capacity

end Memo

end ShaderMigration
