import CallAtlas.Library
import CallAtlas.Pattern.Basic
import CallAtlas.Text.Identifier

/-! # Reading patterns

The written form of patterns: code points, classes in brackets, escapes, groups, alternatives and
repetition. A text that breaks the rules gives no pattern. -/

namespace CallAtlas.Pattern

def orMalformed {α : Type} : Option α → Except PatternError α
  | some r => .ok r
  | none => .error .malformed

/-- The characters that stand at the start of a text as long as they pass a test, and what
follows. -/
def leading (accepts : Char → Bool) : List Rune → List Char × List Rune
  | .char c :: rest =>
    if accepts c then
      let (cs, rest) := leading accepts rest
      (c :: cs, rest)
    else ([], .char c :: rest)
  | rest => ([], rest)

/-! ## Repetition -/

/-- The first count that is too large. -/
def countLimit : Nat := 4294967295

/-- A count; nothing stands for zero. -/
def count (ds : List Char) : Except PatternError Nat :=
  if Text.digitLimit < ds.length then .error .countTooLong
  else if countLimit ≤ Text.value ds then .error .countTooLarge
  else .ok (Text.value ds)

/-- The least and the most number of rounds; without a bound the second is missing. -/
abbrev Counts := Nat × Option Nat

/-- The counts that are written with digits. -/
def countsOf (low high : List Char) : Except PatternError Counts := do
  let least ← count low
  if high.isEmpty then return (least, none)
  let most ← count high
  if most < least then throw .malformed
  return (least, some most)

/-- Counts between braces. Braces that hold anything else stand for themselves. A lone backslash
behind them is found before the counts are looked at. -/
def bracedCounts (rs : List Rune) : Except PatternError (Option (Counts × List Rune)) :=
  match rs with
  | .char '}' :: _ => .ok none
  | _ =>
    let (low, rest) := leading Text.isDigit rs
    let (high, rest) := match rest with
      | .char ',' :: rest => leading Text.isDigit rest
      | rest => (low, rest)
    match rest with
    | [.char '}', .char '\\'] => .error .malformed
    | .char '}' :: rest => (countsOf low high).map fun c => some (c, rest)
    | _ => .ok none

/-- The repetition written at the start of a text, if one is. -/
def repetition : List Rune → Except PatternError (Option (Counts × List Rune))
  | .char '*' :: rest => .ok (some ((0, none), rest))
  | .char '+' :: rest => .ok (some ((1, none), rest))
  | .char '?' :: rest => .ok (some ((0, some 1), rest))
  | .char '{' :: rest => bracedCounts rest
  | _ => .ok none

/-- The manner of a repetition, and what follows its mark. -/
def manner : List Rune → Manner × List Rune
  | .char '?' :: rest => (.lazy, rest)
  | .char '+' :: rest => (.possessive, rest)
  | rs => (.greedy, rs)

/-! ## Escapes -/

/-- The number that hexadecimal digits stand for. -/
def hexNumber? (ds : List Char) : Option Nat :=
  ds.foldlM (fun n c => (Json.hexValue? c).map (16 * n + ·)) 0

/-- Whether a character is an octal digit. -/
def isOctal (c : Char) : Bool := decide (48 ≤ c.toNat) && decide (c.toNat ≤ 55)

/-- The code point written in `width` hexadecimal digits, and what follows. -/
def numbered (width : Nat) (rs : List Rune) : Option (Nat × List Rune) :=
  let (ds, _) := leading (fun c => (Json.hexValue? c).isSome) (rs.take width)
  if ds.length < width then none
  else match hexNumber? ds with
    | none => none
    | some n => if n < 0x110000 then some (n, rs.drop width) else none

/-- The code point that octal digits stand for, and what follows; it has to fit into eight
bits. -/
def octal (most : Nat) (rs : List Rune) : Option (Nat × List Rune) :=
  let (ds, _) := leading isOctal (rs.take most)
  let n := ds.foldl (fun n d => 8 * n + Text.digitValue d) 0
  if n < 256 then some (n, rs.drop ds.length) else none

/-- A letter after a backslash that stands for one character, in and out of classes. -/
def letterEscape? (c : Rune) : Option Char :=
  if c = 'a' then some (Char.ofNat 7)
  else if c = 'f' then some (Char.ofNat 12)
  else if c = 'n' then some '\n'
  else if c = 'r' then some '\r'
  else if c = 't' then some '\t'
  else if c = 'v' then some (Char.ofNat 11)
  else none

/-- The class that a letter after a backslash stands for. -/
def classEscape? (c : Rune) : Option CharItem :=
  if c = 'd' then some (.digit true)
  else if c = 'D' then some (.digit false)
  else if c = 'w' then some (.word true)
  else if c = 'W' then some (.word false)
  else if c = 's' then some (.space true)
  else if c = 'S' then some (.space false)
  else none

/-- Whether a code point is an unaccented letter or a digit, which have no meaning of their own
after a backslash. -/
def isPlain (r : Rune) : Bool :=
  Text.CodePoint.within [(48, 57), (65, 90), (97, 122)] r

/-- The code point of an escape that means the same in and out of classes, the backslash being
read already. -/
def plainEscape : List Rune → Option (Nat × List Rune)
  | [] => none
  | r :: rest =>
    if r = 'x' then numbered 2 rest
    else if r = 'u' then numbered 4 rest
    else if r = 'U' then numbered 8 rest
    else match letterEscape? r with
      | some c => some (c.toNat, rest)
      | none => if isPlain r then none else some (r.code, rest)

/-- The code point of an escape outside a class. One or two digits that do not start with zero
would name a group. -/
def outerEscape (rs : List Rune) : Option (Nat × List Rune) :=
  if rs.head? = some (.char '0') || (leading isOctal (rs.take 3)).1.length = 3 then octal 3 rs
  else plainEscape rs

/-- The code point of an escape in a class. -/
def innerEscape (rs : List Rune) : Option (Nat × List Rune) :=
  match rs with
  | .char 'b' :: rest => some (8, rest)
  | _ => if (leading isOctal (rs.take 3)).1.isEmpty then plainEscape rs else octal 3 rs

/-! ## Classes -/

/-- One end of a range in a class, or a whole class: the item, the code point if it is a single
one, and what follows. -/
def classAtom : List Rune → Option (CharItem × Option Nat × List Rune)
  | [] => none
  | [.char '\\'] => none
  | .char '\\' :: r :: rest => match classEscape? r with
    | some item => some (item, none, rest)
    | none => (innerEscape (r :: rest)).map fun e => (.range e.1 e.1, some e.1, e.2)
  | r :: rest => some (.range r.code r.code, some r.code, rest)

/-- The items of a class up to its closing bracket; `first` holds until an item has been read. -/
def classItems : Nat → Bool → List Rune → Option (List CharItem × List Rune)
  | 0, _, _ => none
  | fuel + 1, first, rs => match rs with
    | [] => none
    | r :: rest =>
      if r = ']' && !first then some ([], rest)
      else match classAtom (r :: rest) with
        | none => none
        | some (item, low, rest) => match rest with
          | .char '-' :: .char ']' :: _ =>
            (classItems fuel false rest).map fun r => (item :: r.1, r.2)
          | .char '-' :: rest' => match low, classAtom rest' with
            | some l, some (_, some h, rest'') =>
              if l ≤ h then
                (classItems fuel false rest'').map fun r => (.range l h :: r.1, r.2)
              else none
            | _, _ => none
          | _ => (classItems fuel false rest).map fun r => (item :: r.1, r.2)

/-- A class after its opening bracket. -/
def readClass (rs : List Rune) : Option (Pattern × List Rune) :=
  match rs with
  | .char '^' :: rest =>
    (classItems (rest.length + 1) true rest).map fun r => (.oneOf true r.1, r.2)
  | _ => (classItems (rs.length + 1) true rs).map fun r => (.oneOf false r.1, r.2)

/-! ## Patterns -/

/-- One given code point. -/
def one (n : Nat) : Pattern := .oneOf false [.range n n]

/-- Whether an item is a place rather than a text; places cannot be repeated. -/
def isPlace : Pattern → Bool
  | .atStart | .atEnd | .atLast | .boundary _ => true
  | _ => false

/-- What an escape outside a class stands for. -/
def readEscape : List Rune → Option (Pattern × List Rune)
  | [] => none
  | r :: rest =>
    if r = 'A' then some (.atStart, rest)
    else if r = 'Z' then some (.atLast, rest)
    else if r = 'b' then some (.boundary true, rest)
    else if r = 'B' then some (.boundary false, rest)
    else match classEscape? r with
      | some item => some (.oneOf false [item], rest)
      | none => (outerEscape (r :: rest)).map fun e => (one e.1, e.2)

/-- What is left of a pattern's text, and the names of the groups that were opened before. -/
structure Cursor where
  rest : List Rune
  names : List (List Rune)

/-- Opens a group with a name up to a closing bracket. Names are identifiers, and no two groups
have the same. -/
def openNamed (rs : List Rune) (names : List (List Rune)) : Option Cursor :=
  let name := rs.takeWhile (· != .char '>')
  match rs.drop name.length with
  | _ :: rest =>
    if Text.isIdentifier name && !names.contains name then some ⟨rest, name :: names⟩ else none
  | [] => none

/-- What follows the opening of a group that matches what its body matches. -/
def openGroup (cursor : Cursor) : Option Cursor :=
  match cursor.rest with
  | .char '?' :: .char ':' :: rest => some { cursor with rest }
  | .char '?' :: .char 'P' :: .char '<' :: rest => openNamed rest cursor.names
  | .char '?' :: _ => none
  | _ => some cursor

mutual
/-- Alternatives up to a closing parenthesis or the end. -/
def readAlternatives : Nat → Cursor → Except PatternError (Pattern × Cursor)
  | 0, _ => .error .malformed
  | fuel + 1, start => do
    let (p, next) ← readSequence fuel start
    match next.rest with
    | .char '|' :: rest =>
      let (q, next) ← readAlternatives fuel { next with rest }
      return (.alt p q, next)
    | _ => return (p, next)

/-- Items one after the other. -/
def readSequence : Nat → Cursor → Except PatternError (Pattern × Cursor)
  | 0, _ => .error .malformed
  | fuel + 1, start => match start.rest with
    | [] => .ok (.empty, start)
    | .char '|' :: _ => .ok (.empty, start)
    | .char ')' :: _ => .ok (.empty, start)
    | _ => do
      let (p, next) ← readItem fuel start
      let (q, next) ← readSequence fuel next
      return (.seq p q, next)

/-- One item with its repetition. Nothing, a place or a repetition cannot be repeated. -/
def readItem : Nat → Cursor → Except PatternError (Pattern × Cursor)
  | 0, _ => .error .malformed
  | fuel + 1, start => do
    if (← repetition start.rest).isSome then throw .malformed
    let (p, next) ← readAtom fuel start
    match ← repetition next.rest with
    | none => return (p, next)
    | some ((least, most), rest) =>
      if isPlace p then throw .malformed
      let (manner, rest) := manner rest
      if (← repetition rest).isSome then throw .malformed
      return (.rep p least most manner, { next with rest })

/-- One item without its repetition. -/
def readAtom : Nat → Cursor → Except PatternError (Pattern × Cursor)
  | 0, _ => .error .malformed
  | fuel + 1, start =>
    let item (p : Pattern) (rest : List Rune) : Pattern × Cursor := (p, { start with rest })
    match start.rest with
    | [] => .error .malformed
    | .char '.' :: rest => .ok (item .anyChar rest)
    | .char '^' :: rest => .ok (item .atStart rest)
    | .char '$' :: rest => .ok (item .atEnd rest)
    | .char '[' :: rest => do
      let (p, rest) ← orMalformed (readClass rest)
      return item p rest
    | .char '\\' :: rest => do
      let (p, rest) ← orMalformed (readEscape rest)
      return item p rest
    | .char '(' :: rest => do
      let inner ← orMalformed (openGroup { start with rest })
      let (p, next) ← readAlternatives fuel inner
      match next.rest with
      | .char ')' :: rest => return (.seq .empty p, { next with rest })
      | _ => throw .malformed
    | r :: rest => .ok (item (one r.code) rest)
end

/-- The pattern that a text writes. -/
def parse (t : Text) : Except PatternError Pattern := do
  let (p, next) ← readAlternatives (4 * t.runes.length + 4) ⟨t.runes, []⟩
  if next.rest.isEmpty then return p else throw .malformed

end CallAtlas.Pattern
