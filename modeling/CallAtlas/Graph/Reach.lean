import CallAtlas.Graph.Component

/-! # Parts of a graph

The part of a graph within a number of steps of some nodes. Levels are found one after the other:
each consists of the vertices that the one before leads to and that were on none so far. -/

namespace CallAtlas.Graph

/-- The vertices that a level leads to and that have not been seen, each once. -/
def nextLevel {α : Type} [DecidableEq α] (next : α → List α) (seen level : List α) : List α :=
  (level.flatMap next).eraseDups.filter fun v => decide (v ∉ seen)

/-- All vertices within `rounds` steps of a level, with those seen before. -/
def within {α : Type} [DecidableEq α] (next : α → List α) : Nat → List α → List α → List α
  | 0, seen, _ => seen
  | rounds + 1, seen, level =>
    match nextLevel next seen level with
    | [] => seen
    | more => within next rounds (seen ++ more) more

/-- The number of rounds for a depth; without one, as many as there can be levels. -/
def roundsFor (n : Nat) (edges : List Edge) : Option Int → Nat
  | none => n + 2 * edges.length + 1
  | some depth => depth.toNat

/-- The position of a place among nodes; the last one, if there are several. -/
def lastPosition? (nodes : List Location) (l : Location) : Option Int :=
  (nodes.zipIdx.reverse.find? fun c => decide (c.1 = l)).map fun c => Int.ofNat c.2

/-- Which nodes are within a depth of the given places; all of them, if no places are given. -/
def reachMask (nodes : List Location) (edges : List Edge) (from_ : List Location)
    (withReverse : Bool) (depth : Option Int) : Except Error (List Bool) :=
  let n := nodes.length
  if from_.isEmpty then .ok (List.replicate n true)
  else
    let roots := (from_.filterMap (lastPosition? nodes)).eraseDups
    let next (i : Int) : List Int :=
      successors edges i ++ (if withReverse then predecessors edges i else [])
    let seen := within next (roundsFor n edges depth) roots roots
    if seen.any fun i => (slot? n i).isNone then .error .outOfRange
    else .ok ((List.range n).map fun i => seen.any fun j => slot? n j == some i)

/-- The items that are kept. -/
def kept {α : Type} (mask : List Bool) (items : List α) : List α :=
  (mask.zip items).filterMap fun p => if p.1 then some p.2 else none

/-- The new position of a kept position: the number of kept ones before it. -/
def rank (mask : List Bool) (i : Int) : Except Error Int :=
  if 0 ≤ i then .ok (Int.ofNat ((mask.take i.toNat).countP id)) else .error .unknownPosition

/-- An edge with its new positions, if both its ends are kept. -/
def keptEdge (mask : List Bool) (e : Edge) : Except Error (Option Edge) :=
  match at? mask e.source with
  | none => .error .outOfRange
  | some false => .ok none
  | some true => match at? mask e.target with
    | none => .error .outOfRange
    | some false => .ok none
    | some true => match rank mask e.source, rank mask e.target with
      | .ok s, .ok t => .ok (some ⟨s, t, e.kind⟩)
      | .error err, _ => .error err
      | _, .error err => .error err

/-- The edges both of whose ends are kept, in order. -/
def keptEdges (mask : List Bool) : List Edge → Except Error (List Edge)
  | [] => .ok []
  | e :: es => match keptEdge mask e with
    | .error err => .error err
    | .ok e? => match keptEdges mask es with
      | .error err => .error err
      | .ok rest => .ok (e?.toList ++ rest)

/-- Nodes with their owners, and the edges between them. -/
structure Part where
  nodes : List Location
  owners : List Symbol
  edges : List Edge
  deriving DecidableEq, Repr

/-- The part of a graph that a mask keeps; a kept node has to have an owner. -/
def Part.restrict (p : Part) (mask : List Bool) : Except Error Part :=
  if ((mask.drop p.owners.length).any id) then .error .outOfRange
  else match keptEdges mask p.edges with
    | .error e => .error e
    | .ok edges => .ok ⟨kept mask p.nodes, kept mask p.owners, edges⟩

/-- The components of a part and the edges between them. -/
def Part.components (p : Part) : Except Error (List (List Int) × List (Int × Int)) :=
  match componentsOf p.nodes.length p.edges with
  | .error e => .error e
  | .ok cs => match condense cs p.edges with
    | .error e => .error e
    | .ok ces => .ok (cs, ces)

/-- The nodes, owners and edges of a graph. -/
def CallGraph.part (g : CallGraph) : Part := ⟨g.nodes, g.owners, g.edges⟩

/-- The graph within a depth of some of its nodes. Without nodes and without any limit it is the
graph itself. -/
def CallGraph.subgraph (g : CallGraph) (roots : List Int) (depth : Option Int)
    (withReverse : Bool) : Except Error CallGraph :=
  if roots.isEmpty && depth.isNone && !withReverse then .ok g
  else do
    let places ← itemsAt g.nodes roots
    let mask ← reachMask g.nodes g.edges places withReverse depth
    let part ← g.part.restrict mask
    let (components, componentEdges) ← part.components
    return ⟨part.nodes, part.owners, part.edges, components, componentEdges, g.unresolved,
      some ⟨part.nodes.length, part.edges.length, g.unresolved.length⟩⟩

end CallAtlas.Graph
