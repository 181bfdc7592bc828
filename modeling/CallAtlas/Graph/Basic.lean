import CallAtlas.Symbol

/-! # Call graphs

The nodes of a call graph are the places where symbols are defined. Edges and components name nodes
by their positions in the list of nodes; where a list is read at a position, a negative one counts
from the end. -/

namespace CallAtlas.Graph

/-- Whether a call surely goes to its target, or to one of several. -/
inductive EdgeKind where
  | must
  | may
  deriving DecidableEq, Repr

/-- A call from one node to another. -/
structure Edge where
  source : Int
  target : Int
  kind : EdgeKind
  deriving DecidableEq, Repr

/-- The same call seen from its target. -/
def Edge.flip (e : Edge) : Edge := ⟨e.target, e.source, e.kind⟩

/-- Which way edges are followed. -/
inductive Direction where
  | forward
  | backward
  | both
  deriving DecidableEq, Repr

/-- Why a call has no edge. -/
inductive Reason where
  | noDefinitions
  | ambiguous
  deriving DecidableEq, Repr

/-- A call without an edge. -/
structure Unresolved where
  caller : Location
  callee : Symbol
  callSites : List Location
  reason : Reason
  deriving DecidableEq, Repr

/-- How large a graph is. -/
structure Stats where
  nodes : Nat
  edges : Nat
  unresolved : Nat
  deriving DecidableEq, Repr

/-- A call graph. Components and the edges between them may be left out. -/
structure CallGraph where
  nodes : List Location
  owners : List Symbol
  edges : List Edge
  components : List (List Int)
  componentEdges : List (Int × Int)
  unresolved : List Unresolved
  stats : Option Stats
  deriving DecidableEq, Repr

/-- Why a question about a graph has no answer. -/
inductive Error where
  /-- A position outside a list. -/
  | outOfRange
  /-- A position that no component or node stands for. -/
  | unknownPosition
  /-- A place that is no node. -/
  | notANode
  deriving DecidableEq, Repr

def Error.message : Error → Text
  | .outOfRange => "list index out of range"
  | .unknownPosition => "unknown position"
  | .notANode => "Source or destination node not found in graph"

/-- The positions of a list of a length. -/
def positions (n : Nat) : List Int := (List.range n).map Int.ofNat

/-- The place that a position stands for in a list of a length. -/
def slot? (n : Nat) (i : Int) : Option Nat :=
  if 0 ≤ i ∧ i < n then some i.toNat
  else if i < 0 ∧ 0 ≤ i + n then some (i + n).toNat
  else none

/-- The item at a position. -/
def at? {α : Type} (items : List α) (i : Int) : Option α := (slot? items.length i).bind (items[·]?)

/-- The item at a position, which has to be in the list. -/
def itemAt {α : Type} (items : List α) (i : Int) : Except Error α :=
  match at? items i with
  | some a => .ok a
  | none => .error .outOfRange

/-- The items at several positions. -/
def itemsAt {α : Type} (items : List α) : List Int → Except Error (List α)
  | [] => .ok []
  | i :: is => match itemAt items i, itemsAt items is with
    | .ok a, .ok as => .ok (a :: as)
    | .error e, _ => .error e
    | _, .error e => .error e

/-- The targets of the edges that leave a position, in the order of the edges. -/
def successors (edges : List Edge) (i : Int) : List Int :=
  edges.filterMap fun e => if e.source = i then some e.target else none

/-- The sources of the edges that reach a position, in the order of the edges. -/
def predecessors (edges : List Edge) (i : Int) : List Int :=
  edges.filterMap fun e => if e.target = i then some e.source else none

/-- Both ends of the edges at a position, in the order of the edges. -/
def neighbours (edges : List Edge) (i : Int) : List Int :=
  edges.flatMap fun e =>
    (if e.source = i then [e.target] else []) ++ (if e.target = i then [e.source] else [])

/-- Where a direction leads from a position. -/
def onward (edges : List Edge) : Direction → Int → List Int
  | .forward => successors edges
  | .backward => predecessors edges
  | .both => neighbours edges

/-- Whether every edge joins two nodes of a graph of `n` nodes. -/
def InRange (n : Nat) (edges : List Edge) : Prop :=
  ∀ e ∈ edges, (0 ≤ e.source ∧ e.source < n) ∧ (0 ≤ e.target ∧ e.target < n)

instance (n : Nat) (edges : List Edge) : Decidable (InRange n edges) :=
  inferInstanceAs (Decidable (∀ e ∈ edges, _))

theorem mem_successors {edges : List Edge} {i j : Int} :
    j ∈ successors edges i ↔ ∃ e ∈ edges, e.source = i ∧ e.target = j := by
  simp [successors, List.mem_filterMap]

end CallAtlas.Graph
