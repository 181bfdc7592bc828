import CallAtlas.Graph.Build
import CallAtlas.Service.Basic

/-! # Questions about the call graph

The graph is built when it is first needed, and kept until it is cleared. -/

namespace CallAtlas.Service

/-- The call graph, built if there is none. -/
def callGraph : Tool Graph.CallGraph := do
  match (← get).graph with
  | some g => return g
  | none =>
    let ix ← index
    let g ← lift .graph (Graph.build ix ⟨true, .forward, [], true⟩)
    modify fun s => { s with graph := some g }
    return g

/-- Forgets the call graph. -/
def clearGraph : Tool Unit := modify fun s => { s with graph := none }

/-- A component in an overview: its number, its size and its first nodes. -/
structure ComponentSample where
  id : Nat
  size : Nat
  sample : List Location

/-- An overview of a graph. -/
structure Overview where
  stats : Option Graph.Stats
  components : List ComponentSample
  entryPoints : List Location
  endPoints : List Location

/-- The first five nodes of every component. -/
def samples (g : Graph.CallGraph) :
    List (List Int × Nat) → Except Graph.Error (List ComponentSample)
  | [] => .ok []
  | (c, id) :: rest => match Graph.itemsAt g.nodes (c.take 5), samples g rest with
    | .ok sample, .ok more => .ok (⟨id, c.length, sample⟩ :: more)
    | .error e, _ => .error e
    | _, .error e => .error e

/-- The overview of a graph: at most ten nodes are shown where it begins and where it ends. -/
def overviewOf (g : Graph.CallGraph) : Except Graph.Error Overview := do
  let components ← samples g g.components.zipIdx
  let entryPoints ← Graph.itemsAt g.nodes ((g.starts .forward).take 10)
  let endPoints ← Graph.itemsAt g.nodes ((g.starts .backward).take 10)
  return ⟨g.stats, components, entryPoints, endPoints⟩

/-- The overview of the call graph, without a note that it was asked for. -/
def graphOverview : Tool Overview := do
  lift .graph (overviewOf (← callGraph))

/-- The overview of the call graph. -/
def overview : Tool Overview := do
  logCall
  graphOverview

/-- The positions of the nodes that are among some places. -/
def positionsAmong (g : Graph.CallGraph) (places : List Location) : List Int :=
  g.nodes.zipIdx.filterMap fun n => if n.1 ∈ places then some (Int.ofNat n.2) else none

/-- The part of the call graph within a depth of some places, without a note that it was asked for.
Places that are no nodes are passed over. -/
def graphPart (roots : List Location) (depth : Int) : Tool Graph.CallGraph := do
  let g ← callGraph
  lift .graph (g.subgraph (positionsAmong g roots) (some depth) false)

/-- The part of the call graph within a depth of some places. -/
def subgraph (roots : List Location) (depth : Int) : Tool Graph.CallGraph := do
  logCall
  graphPart roots depth

/-- The first position of a place among nodes. -/
def positionOf? (g : Graph.CallGraph) (l : Location) : Option Int :=
  (g.nodes.findIdx? fun n => decide (n = l)).map Int.ofNat

/-- At most `k` routes between two places in a graph. -/
def routesIn (g : Graph.CallGraph) (start goal : Location) (k : Int) (mode : Graph.RouteMode) :
    Except Graph.Error (List Graph.Route) :=
  match positionOf? g start, positionOf? g goal with
  | some i, some j => g.findRoutes i j k none mode
  | _, _ => .error .notANode

/-- At most `k` routes between two places, without a note that they were asked for. -/
def routesBetween (start goal : Location) (k : Int) (mode : Graph.RouteMode) :
    Tool (List Graph.Route) := do
  lift .graph (routesIn (← callGraph) start goal k mode)

/-- At most `k` routes between two places, told by components. -/
def routes (start goal : Location) (k : Int) : Tool (List Graph.Route) := do
  logCall
  routesBetween start goal k .hybrid

/-- All nodes in breadth-first order. -/
def order (d : Graph.Direction) : Tool (List Location) := do
  lift .graph ((← callGraph).traverse d none)

end CallAtlas.Service
