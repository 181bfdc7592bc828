import CallAtlas.Pattern.Place

/-! # Preferred matches

From every place of a text, the places where a match can end, the preferred ones first. A
repetition that keeps its first choice needs to know this order of its body. -/

namespace CallAtlas.Pattern

/-- For every place of a text, the places where a match that starts there can end, the preferred
ones first. -/
structure Choices where
  ends : Array (List Nat)
  deriving DecidableEq, Repr

/-- Places without those that have been met before; `met` is their set. -/
def distinctFrom (met : Nat) : List Nat → List Nat
  | [] => []
  | i :: is =>
    if met.testBit i then distinctFrom met is else i :: distinctFrom (met ||| Nat.pow 2 i) is

namespace Choices

/-- The choices at a place. -/
def reach (c : Choices) (i : Nat) : List Nat := c.ends[i]?.getD []

/-- The choices of a text with `n` code points, place by place. -/
def tabulate (n : Nat) (f : Nat → List Nat) : Choices :=
  ⟨(Array.range (n + 1)).map fun i => distinctFrom 0 (f i)⟩

/-- The last place. -/
def last (c : Choices) : Nat := c.ends.size - 1

/-- Moves one place on from some places. -/
def move (n places : Nat) : Choices := tabulate n fun i => if places.testBit i then [i + 1] else []

/-- Stays at some places. -/
def stay (n places : Nat) : Choices := tabulate n fun i => if places.testBit i then [i] else []

/-- One match after another. -/
def seq (a b : Choices) : Choices := tabulate a.last fun i => (a.reach i).flatMap b.reach

/-- One match, or else another. -/
def alt (a b : Choices) : Choices := tabulate a.last fun i => a.reach i ++ b.reach i

/-! ## Rounds -/

/-- Exactly `n` rounds before something else. -/
def times (body : Choices) : Nat → Choices → Choices
  | 0, c => c
  | n + 1, c => let d := seq body c; if d = c then c else times body n d

/-- The choice of one more round, given those behind it. A round that reads nothing is the last
one. -/
def more (body : Choices) (lazy : Bool) (later : Choices) : Choices :=
  tabulate body.last fun i =>
    let rest := (body.reach i).flatMap fun j => if j = i then [i] else later.reach j
    if lazy then i :: rest else rest ++ [i]

/-- At most `n` rounds, given the choices after those that come behind them. -/
def upTo (body : Choices) (lazy : Bool) : Nat → Choices → Choices
  | 0, c => c
  | n + 1, c => let d := more body lazy c; if d = c then c else upTo body lazy n d

/-- A repetition. More rounds than code points are left change nothing, since a round that reads
nothing ends where it starts. -/
def repeated (body : Choices) (least : Nat) (most : Option Nat) (lazy : Bool) : Choices :=
  let n := body.last
  let extra := upTo body lazy (extraRounds n least most) (stay n (allPlaces n))
  times body (min least (n + 1)) extra

/-! ## First choices -/

/-- The place after exactly `n` rounds that all take their first choice. -/
def firstRounds (body : Choices) : Nat → Nat → Option Nat
  | 0, i => some i
  | n + 1, i => (body.reach i).head?.bind (firstRounds body n)

/-- The place after as many rounds as there can be, at most `n`, that all take their first choice
and read something. -/
def lastRound (body : Choices) : Nat → Nat → Nat
  | 0, i => i
  | n + 1, i => match (body.reach i).head? with
    | none => i
    | some j => if j = i then i else lastRound body n j

/-- For every place, where a repetition ends that takes as many rounds as it can, each of them by
its first choice. -/
def committed (body : Choices) (least : Nat) (most : Option Nat) : Array (Option Nat) :=
  let n := body.last
  (Array.range (n + 1)).map fun i =>
    (firstRounds body (min least (n + 1)) i).map (lastRound body (extraRounds n least most))

end Choices

/-- The choices of a pattern in a text. -/
def choices (rs : List Rune) : Pattern → Choices
  | .empty => .stay rs.length (allPlaces rs.length)
  | .oneOf negated items => .move rs.length (placesBefore (classHolds negated items) rs)
  | .anyChar => .move rs.length (placesBefore (fun r => r != .char '\n') rs)
  | .seq a b => .seq (a.choices rs) (b.choices rs)
  | .alt a b => .alt (a.choices rs) (b.choices rs)
  | .rep a least most manner =>
    if manner = .possessive then
      let ends := (a.choices rs).committed least most
      .tabulate rs.length fun i => (ends[i]?.bind id).toList
    else (a.choices rs).repeated least most (manner = .lazy)
  | .atStart => .stay rs.length 1
  | .atEnd => .stay rs.length (endPlaces rs)
  | .atLast => .stay rs.length (Nat.pow 2 rs.length)
  | .boundary positive => .stay rs.length (boundaryPlaces positive rs)

end CallAtlas.Pattern
