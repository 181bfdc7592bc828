import CallAtlas.Graph.Component

/-! # Routes

A route is a way along edges that comes to no vertex twice. Routes are found depth first, in the
order of the edges, until enough have been found. -/

namespace CallAtlas.Graph

/-! ## The search -/

section Search

variable {α : Type} [DecidableEq α]

/-- One vertex after the other until `k` routes have been found. -/
def takeRoutes (route : Nat → α → List (List α)) : Nat → List α → List (List α)
  | _, [] => []
  | 0, _ :: _ => []
  | k + 1, v :: vs =>
    let found := route (k + 1) v
    found ++ takeRoutes route (k + 1 - found.length) vs

/-- At most `k` routes to `goal` that come to `v` after `trail`, the newest vertex first, and have
at most `room` more edges. -/
def routesFrom (next : α → List α) (goal : α) :
    Nat → List α → Option Nat → Nat → α → List (List α)
  | 0, _, _, _, _ => []
  | fuel + 1, trail, room, k, v =>
    if k = 0 then []
    else if v = goal then [(v :: trail).reverse]
    else if room = some 0 then []
    else
      takeRoutes (fun k w => routesFrom next goal fuel (v :: trail) (room.map (· - 1)) k w) k
        ((next v).filter fun w => decide (w ∉ v :: trail))

/-- At most `k` routes from one vertex to another with at most `most` edges. `size` bounds the
number of vertices on a route. -/
def routes (size : Nat) (next : α → List α) (start goal : α) (k : Int) (most : Option Int) :
    List (List α) :=
  if most.any fun m => decide (m < 0) then []
  else routesFrom next goal (size + 1) [] (most.map Int.toNat) k.toNat start

end Search

/-! ## Routes of a call graph -/

/-- How routes are told: by nodes, by components, or by the nodes inside each component. -/
inductive RouteMode where
  | node
  | component
  | hybrid
  deriving DecidableEq, Repr

/-- The stretch of a route inside one component. -/
structure Segment where
  component : Int
  nodes : Option (List Site)
  deriving DecidableEq, Repr

/-- A route as it is told. -/
inductive Route where
  | nodes (sites : List Site)
  | components (ids : List Int)
  | hybrid (segments : List Segment)
  deriving DecidableEq, Repr

/-- Names with arrows between them. -/
def arrows (names : List Text) : Text := Text.join "->" names

/-- The printed form of a component's number. -/
def componentName (id : Int) : Text := "SCC[" ++ Text.ofInt id ++ "]"

/-- The printed form of a stretch: its component, and its nodes if there are any. -/
def Segment.toText (s : Segment) : Text :=
  match s.nodes with
  | none | some [] => componentName s.component
  | some sites =>
    componentName s.component ++ "(" ++ arrows (sites.map fun n => n.symbol.display) ++ ")"

/-- The printed form of a route. -/
def Route.toText : Route → Text
  | .nodes sites => arrows (sites.map fun s => s.symbol.display)
  | .components [] => "SCC[]"
  | .components ids => arrows (ids.map componentName)
  | .hybrid segments => arrows (segments.map Segment.toText)

/-- The node at a position with its owner. -/
def CallGraph.siteAt (g : CallGraph) (i : Int) : Except Error Site :=
  match itemAt g.owners i, itemAt g.nodes i with
  | .ok s, .ok l => .ok ⟨s, l⟩
  | .error e, _ => .error e
  | _, .error e => .error e

/-- The nodes at several positions with their owners. -/
def CallGraph.sitesAt (g : CallGraph) : List Int → Except Error (List Site)
  | [] => .ok []
  | i :: is => match g.siteAt i, g.sitesAt is with
    | .ok s, .ok ss => .ok (s :: ss)
    | .error e, _ => .error e
    | _, .error e => .error e

/-- The components of a graph, found if they were left out. -/
def CallGraph.componentList (g : CallGraph) : Except Error (List (List Int)) :=
  if g.components.isEmpty then componentsOf g.nodes.length g.edges else .ok g.components

/-- The stretches of a route inside one component each, with the component's number. Positions in
no component are passed over. -/
def stretches (components : List (List Int)) : List Int → List (Int × List Int)
  | [] => []
  | i :: is => match componentOf? components i with
    | none => stretches components is
    | some c => match stretches components is with
      | (c', js) :: rest => if c = c' then (c, i :: js) :: rest else (c, [i]) :: (c', js) :: rest
      | [] => [(c, [i])]

/-- A route told by components and the nodes inside them. -/
def CallGraph.segments (g : CallGraph) :
    List (Int × List Int) → Except Error (List Segment)
  | [] => .ok []
  | (c, is) :: rest => match g.sitesAt is, g.segments rest with
    | .ok ss, .ok more => .ok (⟨c, some ss⟩ :: more)
    | .error e, _ => .error e
    | _, .error e => .error e

/-- Applies a function to every item, stopping at the first failure. -/
def eachOk {α β : Type} (f : α → Except Error β) : List α → Except Error (List β)
  | [] => .ok []
  | a :: as => match f a with
    | .error e => .error e
    | .ok b => match eachOk f as with
      | .error e => .error e
      | .ok bs => .ok (b :: bs)

/-- The routes between two positions as positions. -/
def CallGraph.positionRoutes (g : CallGraph) (start goal k : Int) (most : Option Int) :
    List (List Int) :=
  routes (g.edges.length + 1) (successors g.edges) start goal k most

/-- The edges between components, found if there are none. -/
def CallGraph.componentEdgeList (g : CallGraph) (components : List (List Int)) :
    Except Error (List (Int × Int)) :=
  if g.componentEdges.isEmpty then condense components g.edges else .ok g.componentEdges

/-- The components that edges lead to from a component. -/
def componentSuccessors (edges : List (Int × Int)) (c : Int) : List Int :=
  edges.filterMap fun e => if e.1 = c then some e.2 else none

/-- The routes between the components of two positions. -/
def CallGraph.componentRoutes (g : CallGraph) (start goal k : Int) (most : Option Int) :
    Except Error (List (List Int)) :=
  match g.componentList with
  | .error e => .error e
  | .ok cs => match componentOf? cs start, componentOf? cs goal with
    | some a, some b => match g.componentEdgeList cs with
      | .error e => .error e
      | .ok edges => .ok (routes (edges.length + 1) (componentSuccessors edges) a b k most)
    | _, _ => .ok []

/-- At most `k` routes between two positions with at most `most` edges. -/
def CallGraph.findRoutes (g : CallGraph) (start goal k : Int) (most : Option Int)
    (mode : RouteMode) : Except Error (List Route) :=
  match mode with
  | .component => (g.componentRoutes start goal k most).map fun rs => rs.map .components
  | .node =>
    eachOk (fun r => (g.sitesAt r).map .nodes) (g.positionRoutes start goal k most)
  | .hybrid => match g.componentList with
    | .error e => .error e
    | .ok cs => eachOk (fun r => (g.segments (stretches cs r)).map .hybrid)
        (g.positionRoutes start goal k most)

end CallAtlas.Graph
