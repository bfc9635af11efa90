import ShaderMigration.Graph.Edge

namespace ShaderMigration

/-- The walk of a node along at most `depth` edges; none when it would go deeper. -/
def walkWithin (edges : NodeId → List Edge) : Nat → NodeId → Option (List Edge)
  | 0, node => if (edges node).isEmpty then some [] else none
  | depth + 1, node =>
    ((edges node).mapM fun edge =>
      (walkWithin edges depth edge.child).map fun below => edge :: below).map List.flatten

/-- The walk of a node; none when it does not end.  On a graph without cycles no path is longer than
the number of nodes that have edges. -/
def Reads.walk? (reads : Reads) (root : NodeId) : Option (List Edge) :=
  walkWithin reads.edges (reads.allNodes.length + 1) root

/-- A walk that has been started: the edges still to come, innermost list first. -/
structure Walker where
  stack : List (List Edge)

namespace Walker

def start (edges : NodeId → List Edge) (root : NodeId) : Walker := ⟨[edges root]⟩

/-- The next edge on a stack, and the stack behind it. -/
def pop? : List (List Edge) → Option (Edge × List (List Edge))
  | [] => none
  | [] :: rest => pop? rest
  | (edge :: later) :: rest => some (edge, later :: rest)

def push (below : List Edge) (stack : List (List Edge)) : List (List Edge) :=
  if below.isEmpty then stack else below :: stack

/-- The next edge of a walk; the edges of its child come before all others. -/
def next? (edges : NodeId → List Edge) (walker : Walker) : Option (Edge × Walker) :=
  (pop? walker.stack).map fun (edge, stack) => (edge, ⟨push (edges edge.child) stack⟩)

/-- The first edges of a walk, at most `limit` of them. -/
def take (edges : NodeId → List Edge) : Nat → Walker → List Edge
  | 0, _ => []
  | limit + 1, walker =>
    match walker.next? edges with
    | some (edge, later) => edge :: take edges limit later
    | none => []

end Walker

end ShaderMigration
