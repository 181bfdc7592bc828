import CallAtlas.Pattern.Choice

/-! # Matching by sets of places

The plan of a pattern for a text takes the set of places where matches start to the set of places
where they end, for all of them at once. Rounds that only lead to places that have been reached
already are not repeated. -/

namespace CallAtlas.Pattern

/-- What a pattern does on one text. -/
inductive Plan where
  /-- Moves one place on from some places. -/
  | move (places : Nat)
  /-- Stays at some places. -/
  | stay (places : Nat)
  | seq (first second : Plan)
  | alt (left right : Plan)
  /-- Exactly `count` rounds. -/
  | times (body : Plan) (count : Nat)
  /-- At most `count` rounds. -/
  | upTo (body : Plan) (count : Nat)
  /-- Any number of rounds. -/
  | star (body : Plan)
  /-- Goes from each place to one other place, or to none. -/
  | jump (targets : List (Option Nat))
  deriving DecidableEq, Repr

/-! ## Rounds -/

/-- The places after exactly `n` rounds. Once a round changes nothing, no later one does. -/
def afterTimes (round : Nat → Nat) : Nat → Nat → Nat
  | 0, s => s
  | n + 1, s =>
    let t := round s
    if t = s || t = 0 then t else afterTimes round n t

/-- The places after at most `n` rounds, given those reached so far and the newest among them. -/
def afterUpTo (round : Nat → Nat) : Nat → Nat → Nat → Nat
  | 0, reached, _ => reached
  | n + 1, reached, newest =>
    let all := round newest ||| reached
    if all = reached then reached else afterUpTo round n all (all ^^^ reached)

/-- The places that the places of a set lead to, the first of which has the number `position`. -/
def jumpFrom (s position : Nat) : List (Option Nat) → Nat
  | [] => 0
  | none :: rest => jumpFrom s (position + 1) rest
  | some q :: rest =>
    (if s.testBit position then Nat.pow 2 q else 0) ||| jumpFrom s (position + 1) rest

namespace Plan

/-- The places where matches end that start at places of a set, in a text with `n` code points. -/
def image (n : Nat) : Plan → Nat → Nat
  | .move places, s => 2 * (s &&& places)
  | .stay places, s => s &&& places
  | .seq a b, s => b.image n (a.image n s)
  | .alt a b, s => a.image n s ||| b.image n s
  | .times a count, s => afterTimes (a.image n) count s
  | .upTo a count, s => afterUpTo (a.image n) count s s
  | .star a, s => afterUpTo (a.image n) n s s
  | .jump targets, s => jumpFrom s 0 targets

/-- Whether a plan can stay at every place. -/
def staysAt (all : Nat) : Plan → Bool
  | .move _ => false
  | .stay places => places == all
  | .seq a b => a.staysAt all && b.staysAt all
  | .alt a b => a.staysAt all || b.staysAt all
  | .times a count => count == 0 || a.staysAt all
  | .upTo _ _ => true
  | .star _ => true
  | .jump _ => false

/-- A plan that leads to the same places as another when it is repeated any number of times, but
does not spend rounds on staying where it is. -/
def moving (all : Nat) : Plan → Plan
  | .stay _ => .stay 0
  | .alt a b => .alt (a.moving all) (b.moving all)
  | .seq a b =>
    if a.staysAt all && b.staysAt all then .alt (a.moving all) (b.moving all) else .seq a b
  | .times a count =>
    if count = 0 then .stay 0 else if a.staysAt all then a.moving all else .times a count
  | .upTo a count => if count = 0 then .stay 0 else a.moving all
  | .star a => a
  | p => p

/-- The plan that repeats another, in a text with `n` code points. More than `n` rounds lead
nowhere new, and exactly `n + 1` rounds lead where any larger number leads. -/
def repeated (n : Nat) (body : Plan) (least : Nat) (most : Option Nat) : Plan :=
  let all := allPlaces n
  let least := if body.staysAt all then 0 else least
  let extra := extraRounds n least most
  let more := if extra = n then Plan.star (body.moving all) else .upTo body extra
  if least = 0 then more else .seq (.times body (min least (n + 1))) more

end Plan

/-- The plan of a pattern for a text. -/
def plan (rs : List Rune) : Pattern → Plan
  | .empty => .stay (allPlaces rs.length)
  | .oneOf negated items => .move (placesBefore (classHolds negated items) rs)
  | .anyChar => .move (placesBefore (fun r => r != .char '\n') rs)
  | .seq a b => .seq (a.plan rs) (b.plan rs)
  | .alt a b => .alt (a.plan rs) (b.plan rs)
  | .rep a least most manner =>
    if manner = .possessive then .jump ((a.choices rs).committed least most).toList
    else .repeated rs.length (a.plan rs) least most
  | .atStart => .stay 1
  | .atEnd => .stay (endPlaces rs)
  | .atLast => .stay (Nat.pow 2 rs.length)
  | .boundary positive => .stay (boundaryPlaces positive rs)

/-- Whether a pattern occurs somewhere in a text. -/
def occursIn (p : Pattern) (t : Text) : Bool :=
  let rs := t.runes
  (p.plan rs).image rs.length (allPlaces rs.length) != 0

end CallAtlas.Pattern
