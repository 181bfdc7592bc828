import CallAtlas.Graph.Component

/-! # Breadth-first order

All nodes of a graph, outward from where a traversal starts: at the components that nothing leads
to, or that lead nowhere, or at given nodes. What is not reached comes last. -/

namespace CallAtlas.Graph

/-- The vertices of a list that have not been seen, each once. -/
def fresh {α : Type} [DecidableEq α] (seen : List α) : List α → List α
  | [] => []
  | v :: vs => if v ∈ seen then fresh seen vs else v :: fresh (seen ++ [v]) vs

/-- The vertices in the order in which a queue delivers them. -/
def outward {α : Type} [DecidableEq α] (next : α → List α) :
    Nat → List α → List α → List α
  | 0, _, _ => []
  | _ + 1, _, [] => []
  | fuel + 1, seen, v :: queue =>
    let more := fresh seen (next v)
    v :: outward next fuel (seen ++ more) (queue ++ more)

/-- The positions that no edge reaches, or the first position. -/
def sources (n : Nat) (edges : List Edge) : List Int :=
  match (positions n).filter fun i => (predecessors edges i).isEmpty with
  | [] => [0]
  | is => is

/-- The positions that no edge leaves, or the last position. -/
def sinks (n : Nat) (edges : List Edge) : List Int :=
  match (positions n).filter fun i => (successors edges i).isEmpty with
  | [] => [Int.ofNat n - 1]
  | is => is

/-- The members of the components that no edge between components reaches, or of the first one. -/
def sourceMembers (components : List (List Int)) (edges : List (Int × Int)) : List Int :=
  match components.zipIdx.filter fun c => edges.all fun e => e.2 != Int.ofNat c.2 with
  | [] => (components.head?).getD []
  | cs => cs.flatMap Prod.fst

/-- The members of the components that no edge between components leaves, or of the last one. -/
def sinkMembers (components : List (List Int)) (edges : List (Int × Int)) : List Int :=
  match components.zipIdx.filter fun c => edges.all fun e => e.1 != Int.ofNat c.2 with
  | [] => (components.getLast?).getD []
  | cs => cs.flatMap Prod.fst

/-- Where a traversal starts if nothing is said: callers' side forward, callees' side otherwise. -/
def CallGraph.starts (g : CallGraph) (d : Direction) : List Int :=
  match g.components, d with
  | [], .forward => sources g.nodes.length g.edges
  | [], _ => sinks g.nodes.length g.edges
  | cs, .forward => sourceMembers cs g.componentEdges
  | cs, _ => sinkMembers cs g.componentEdges

/-- The start positions of a traversal: given ones count only if they are positions of nodes. -/
def CallGraph.startList (g : CallGraph) (d : Direction) : Option (List Int) → List Int
  | none => fresh [] (g.starts d)
  | some given =>
    fresh [] (given.filter fun i => decide (0 ≤ i) && decide (i < Int.ofNat g.nodes.length))

/-- The positions of a traversal: first those that are reached, then the others. -/
def CallGraph.traversal (g : CallGraph) (d : Direction) (given : Option (List Int)) : List Int :=
  let starts := g.startList d given
  let bound := g.nodes.length + 2 * g.edges.length + starts.length + 1
  let reached := outward (onward g.edges d) bound starts starts
  reached ++ (positions g.nodes.length).filter fun i => decide (i ∉ reached)

/-- The nodes of a graph in breadth-first order. -/
def CallGraph.traverse (g : CallGraph) (d : Direction) (given : Option (List Int)) :
    Except Error (List Location) :=
  if g.nodes.isEmpty then .ok [] else itemsAt g.nodes (g.traversal d given)

end CallAtlas.Graph
