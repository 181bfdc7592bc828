import CallAtlas.Graph.Basic

/-! # Components

A component is a largest set of vertices each of which reaches each other. One depth-first search
finds them all: a vertex gets a number when it is first met and stays on a stack until the search
returns to the first vertex of its component. A component is therefore found after every other
component that it reaches. -/

namespace CallAtlas.Graph

/-! ## The search -/

/-- The state of the search: the next number, the vertices whose component is open with their
numbers, the newest first, and the components found so far, the oldest first. -/
structure Search (α : Type) where
  next : Nat
  stack : List (α × Nat)
  found : List (List α)

namespace Search

variable {α κ : Type} [DecidableEq κ] (key : α → κ)

def start : Search α := ⟨0, [], []⟩

/-- The number of a vertex whose component is open. -/
def number? (s : Search α) (v : α) : Option Nat :=
  (s.stack.find? fun e => decide (key e.1 = key v)).map Prod.snd

/-- Whether a vertex has been met. -/
def met (s : Search α) (v : α) : Bool :=
  (s.number? key v).isSome || s.found.any fun c => c.any fun w => decide (key w = key v)

/-- Numbers a vertex and puts it on the stack. -/
def push (s : Search α) (v : α) : Search α := ⟨s.next + 1, (v, s.next) :: s.stack, s.found⟩

/-- The vertices of the stack down to a vertex, and the stack below it. -/
def split (v : α) : List (α × Nat) → List α × List (α × Nat)
  | [] => ([], [])
  | (w, _) :: rest =>
    if key w = key v then ([w], rest) else let (c, below) := split v rest; (w :: c, below)

/-- Takes the component of a vertex off the stack. -/
def close (s : Search α) (v : α) : Search α :=
  let (c, below) := split key v s.stack
  ⟨s.next, below, s.found ++ [c]⟩

/-- The smaller of two numbers, of which none is the largest. -/
def least : Option Nat → Option Nat → Option Nat
  | none, b => b
  | a, none => a
  | some a, some b => some (min a b)

/-- Looks at vertices in order, visiting those that have not been met. The result is the least
number of an open vertex that they reach. -/
def scan (visit : α → Search α → Option Nat × Search α) :
    List α → Search α → Option Nat × Search α
  | [], s => (none, s)
  | w :: ws, s =>
    let (a, s) := if s.met key w then (s.number? key w, s) else visit w s
    let (b, s) := scan visit ws s
    (least a b, s)

/-- Visits a vertex that has not been met. If nothing older than itself is reached, it closes its
component. -/
def visit (next : α → List α) : Nat → α → Search α → Option Nat × Search α
  | 0, _, s => (none, s)
  | fuel + 1, v, s =>
    let n := s.next
    match scan key (visit next fuel) (next v) (s.push v) with
    | (some low, s) => if low < n then (some low, s) else (none, s.close key v)
    | (none, s) => (none, s.close key v)

/-- The components of a graph, where vertices with one key are one vertex under several names. The
vertices are visited in the given order; no branch of the search is longer than there are keys. -/
def components (vertices : List α) (next : α → List α) : List (List α) :=
  (scan key (visit key next (vertices.length + 1)) vertices start).2.found

end Search

/-! ## Components of call graphs -/

/-- The components of `n` nodes. An edge that leads from them to a position of no node is
refused. -/
def componentsOf (n : Nat) (edges : List Edge) : Except Error (List (List Int)) :=
  let found := Search.components (slot? n) (positions n) (successors edges)
  if found.any fun c => c.any fun i => (slot? n i).isNone then .error .outOfRange else .ok found

/-- The number of the component that holds a position; the last one, if there are several. -/
def componentOf? (components : List (List Int)) (i : Int) : Option Int :=
  (components.zipIdx.reverse.find? fun c => decide (i ∈ c.1)).map fun c => Int.ofNat c.2

/-- Whether one pair comes before another. -/
def pairBefore (a b : Int × Int) : Bool := decide (a.1 < b.1) || (a.1 == b.1 && decide (a.2 ≤ b.2))

/-- The pairs of components that edges join, in order of appearance. -/
def crossings (components : List (List Int)) : List Edge → Except Error (List (Int × Int))
  | [] => .ok []
  | e :: es =>
    match componentOf? components e.source, componentOf? components e.target with
    | some a, some b => match crossings components es with
      | .ok rest => .ok (if a = b then rest else (a, b) :: rest)
      | .error err => .error err
    | _, _ => .error .unknownPosition

/-- The edges between components, each once, in ascending order. -/
def condense (components : List (List Int)) (edges : List Edge) :
    Except Error (List (Int × Int)) :=
  (crossings components edges).map fun pairs => pairs.eraseDups.mergeSort pairBefore

end CallAtlas.Graph
