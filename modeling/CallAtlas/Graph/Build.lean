import CallAtlas.Graph.Reach
import CallAtlas.Index.Basic

/-! # The call graph of an index

Every place where a symbol is defined is a node. Every call of a definition gives an edge to each
place where the called symbol is defined, or a record that it could not be resolved. -/

namespace CallAtlas.Graph

/-- How a graph is built. -/
structure BuildOptions where
  /-- Whether a call of a symbol with several definitions goes to each of them. -/
  expand : Bool
  direction : Direction
  /-- If not empty, only what is reached from these places is kept. -/
  entryPoints : List Location
  withComponents : Bool
  deriving Repr

/-- Places with the symbol that is first defined there, each place once. -/
def nodesOf (items : List (Symbol × Info)) : List (Location × Symbol) :=
  (items.flatMap fun e => e.2.definitions.map fun d => (d.location, e.1)).foldl
    (fun acc n => if acc.any fun m => decide (m.1 = n.1) then acc else acc ++ [n]) []

/-- What becomes of one call: edges by places, or a record that it was not resolved. -/
inductive Resolution where
  | edges (targets : List Location) (kind : EdgeKind)
  | unresolved (reason : Reason)
  deriving DecidableEq, Repr

/-- What becomes of a call to a symbol with the given definitions. -/
def resolve (expand : Bool) : List Definition → Resolution
  | [] => .unresolved .noDefinitions
  | [d] => .edges [d.location] .must
  | ds => if expand then .edges (ds.map Definition.location) .may else .unresolved .ambiguous

/-- All calls with the place of the definition that makes them, in the order of the index. -/
def calls (items : List (Symbol × Info)) : List (Location × Site) :=
  items.flatMap fun e => e.2.definitions.flatMap fun d => d.calls.map fun c => (d.location, c)

/-- The position of a place among nodes that hold it. -/
def position (nodes : List Location) (l : Location) : Int := Int.ofNat (nodes.idxOf l)

/-- The edges of one call. -/
def edgesOf (nodes : List Location) (caller : Location) : Resolution → List Edge
  | .edges targets kind =>
    targets.map fun t => ⟨position nodes caller, position nodes t, kind⟩
  | .unresolved _ => []

/-- The record of one call that was not resolved. -/
def unresolvedOf (caller : Location) (call : Site) : Resolution → List Unresolved
  | .edges .. => []
  | .unresolved reason => [⟨caller, call.symbol, [call.location], reason⟩]

/-- Edges as a direction shows them. -/
def Direction.apply (edges : List Edge) : Direction → List Edge
  | .forward => edges
  | .backward => edges.map Edge.flip
  | .both => edges ++ edges.map Edge.flip

/-- The call graph of symbols with what is known about them, given the definitions of every symbol
that is called. -/
def buildFrom (items : List (Symbol × Info)) (definitions : Symbol → List Definition)
    (o : BuildOptions) : Except Error CallGraph := do
  let owned := nodesOf items
  let nodes := owned.map Prod.fst
  let resolved := (calls items).map fun c => (c, resolve o.expand (definitions c.2.symbol))
  let edges := o.direction.apply (resolved.flatMap fun c => edgesOf nodes c.1.1 c.2)
  let unresolved := resolved.flatMap fun c => unresolvedOf c.1.1 c.1.2 c.2
  let whole : Part := ⟨nodes, owned.map Prod.snd, edges⟩
  let part ← if o.entryPoints.isEmpty then pure whole
    else do
      let mask ← reachMask nodes edges o.entryPoints false none
      whole.restrict mask
  let (components, componentEdges) ← if o.withComponents then part.components else pure ([], [])
  return ⟨part.nodes, part.owners, part.edges, components, componentEdges, unresolved,
    some ⟨part.nodes.length, part.edges.length, unresolved.length⟩⟩

/-- The call graph of an index. -/
def build (ix : Index) (o : BuildOptions) : Except Error CallGraph :=
  buildFrom ix.items ix.definitions o

end CallAtlas.Graph
