import ShaderMigration.Graph.Memo
import ShaderMigration.Graph.Walk

namespace ShaderMigration

def Edge.consumer (edge : Edge) : Consumer := ⟨edge.parent, edge.attr, edge.index, edge.channel⟩

/-- The consumers of a node among the edges met, each once. -/
def consumersAmong (node : NodeId) (edges : List Edge) : List Consumer :=
  ((edges.filter fun edge => edge.child == node).map Edge.consumer).eraseDups

/-- The consumers of a node that are reachable from roots; none when a walk does not end. -/
def Reads.consumers? (reads : Reads) (roots : List NodeId) (node : NodeId) :
    Option (List Consumer) :=
  (roots.mapM reads.walk?).map fun walks => consumersAmong node walks.flatten

/-- Answers who reads a node, from fixed roots, with a memory or without one. -/
structure Resolver (M : Type := Memo) where
  roots : List NodeId
  memo : Option M := none

namespace Resolver

variable {M : Type}

def addRoot (resolver : Resolver M) (root : NodeId) : Resolver M :=
  if root ∈ resolver.roots then resolver else { resolver with roots := resolver.roots ++ [root] }

variable [Memory M]

/-- A resolver from the given roots and further ones, with a memory of a capacity. -/
def ofRoots (roots more : List NodeId) (capacity : Nat) : Resolver M :=
  more.foldl addRoot { roots, memo := Memory.ofCapacity? capacity }

/-- The consumers of a node, remembered or found, and the resolver with the answer remembered. -/
def consumers? (resolver : Resolver M) (reads : Reads) (node : NodeId) :
    Option (List Consumer × Resolver M) :=
  match resolver.memo with
  | none => (reads.consumers? resolver.roots node).map fun found => (found, resolver)
  | some memo =>
    match Memory.get memo node with
    | (some hit, memo) => some (hit, { resolver with memo := some memo })
    | (none, memo) =>
      (reads.consumers? resolver.roots node).map fun found =>
        (found, { resolver with memo := some (Memory.put memo node found) })

def invalidate (resolver : Resolver M) : Resolver M :=
  { resolver with memo := resolver.memo.map Memory.clear }

end Resolver

end ShaderMigration
