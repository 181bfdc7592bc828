import CallAtlas.Text.Numeral
import CallAtlas.Text.Quoted

/-! # Paths

A path is where it starts and the names on its way. Empty names and `.` vanish when a path is
read; `..` stays, since it can be undone only against real directories. A path that starts with
exactly two slashes keeps both. -/

namespace CallAtlas

/-- Where a path starts. -/
inductive Path.Anchor where
  /-- At the working directory. -/
  | relative
  /-- At the root. -/
  | root
  /-- At the root, written with two slashes. -/
  | doubleRoot
  deriving DecidableEq, Repr

/-- A path in its normal form. -/
structure Path where
  anchor : Path.Anchor
  parts : List Text
  deriving DecidableEq, Repr

namespace Path

/-- The names between the slashes of a text. -/
def split : List Rune → List (List Rune)
  | [] => [[]]
  | r :: rest =>
    if r = '/' then [] :: split rest
    else match split rest with
      | [] => [[r]]
      | p :: ps => (r :: p) :: ps

/-- The start of a text by its leading slashes. -/
def anchorOf (rs : List Rune) : Anchor :=
  match (rs.takeWhile (· == .char '/')).length with
  | 0 => .relative
  | 2 => .doubleRoot
  | _ => .root

/-- The path that a text names. -/
def ofText (t : Text) : Path :=
  let names := (split t.runes).filter fun p => !p.isEmpty && p != [.char '.']
  ⟨anchorOf t.runes, names.map Text.ofRunes⟩

/-- The text of a path; the empty relative path is `.`. -/
def toText (p : Path) : Text :=
  let names := Text.join "/" p.parts
  match p.anchor with
  | .relative => if p.parts.isEmpty then "." else names
  | .root => "/" ++ names
  | .doubleRoot => "//" ++ names

instance : Inhabited Path := ⟨⟨.relative, []⟩⟩

/-- The working directory. -/
def here : Path := ⟨.relative, []⟩

/-- Whether a path does not depend on the working directory. -/
def isAbsolute (p : Path) : Bool := p.anchor != .relative

/-- The path reached by following `q` from `p`. -/
def join (p q : Path) : Path := if q.isAbsolute then q else ⟨p.anchor, p.parts ++ q.parts⟩

instance : HDiv Path Path Path := ⟨join⟩

/-- One name below a path. -/
def child (p : Path) (name : Text) : Path := ⟨p.anchor, p.parts ++ [name]⟩

/-- The path without its last name. -/
def parent (p : Path) : Path := ⟨p.anchor, p.parts.dropLast⟩

/-- The last name. -/
def name (p : Path) : Text := p.parts.getLast?.getD .empty

/-- The last name from its last dot on; a dot at either end of the name does not count. -/
def suffix (p : Path) : Text :=
  let rs := p.name.runes
  let tail := (rs.reverse.takeWhile (· != .char '.')).reverse
  let stem := rs.length - tail.length
  if !tail.isEmpty && decide (1 < stem) then .ofRunes (.char '.' :: tail) else .empty

/-- What has to be followed from `base` to reach `p`, if `base` is on the way. -/
def relativeTo? (p base : Path) : Option Path :=
  if p.anchor = base.anchor ∧ base.parts.isPrefixOf p.parts then
    some ⟨.relative, p.parts.drop base.parts.length⟩
  else none

/-- Follows names from a list of names that is given backwards, `..` undoing the last one. -/
def walk (done : List Text) : List Text → List Text
  | [] => done.reverse
  | name :: rest => walk (if name = ".." then done.tail else name :: done) rest

/-- The path from the root without any `..`, where no directory is a link. -/
def resolve (cwd p : Path) : Path :=
  let start := if p.isAbsolute then [] else cwd.parts
  ⟨.root, walk start.reverse p.parts⟩

/-! ## Names that no file can have -/

/-- Why no file can have a path. -/
inductive Fault where
  /-- A NUL character stands in it. -/
  | null
  /-- Halves of pairs stand in it, the first of which is given, from a position up to another. -/
  | half (first : Rune) (start stop : Nat)
  deriving DecidableEq, Repr

def Fault.message : Fault → Text
  | .null => "embedded null byte"
  | .half first start stop =>
    "'utf-8' codec can't encode character"
      ++ (if stop = start + 1 then
          " '" ++ Text.ofChars (Text.Quoted.numbered first.code) ++ "' in position "
            ++ Text.ofNat start
        else "s in position " ++ Text.ofNat start ++ "-" ++ Text.ofNat (stop - 1))
      ++ ": surrogates not allowed"

/-- Whether a code point can stand in the name of a file. The halves that stand for single bytes
can. -/
def canName (r : Rune) : Bool :=
  !r.isHalf || (decide (0xDC80 ≤ r.code) && decide (r.code ≤ 0xDCFF))

/-- The first halves that cannot stand in a name whose first code point has a position. -/
def halvesIn (position : Nat) : List Rune → Option Fault
  | [] => none
  | r :: rest =>
    if canName r then halvesIn (position + 1) rest
    else some (.half r position (position + 1 + (rest.takeWhile Rune.isHalf).length))

/-- Whether a file can have a name. -/
def isProper (name : Text) : Bool := name.runes.all fun r => canName r && r != .char '\x00'

/-- What is wrong with a name at a position that no file can have; a NUL character is noticed
last. -/
def nameFault (position : Nat) (name : Text) : Fault := (halvesIn position name.runes).getD .null

/-- The position of a name behind others. -/
def positionBehind (names : List Text) : Nat :=
  (names.map fun name => name.runes.length + 1).foldl (· + ·) 0

/-- What is wrong with the first name that is at fault, where names that were followed before are
given backwards. -/
def faultFrom (start : Nat) (done : List Text) : List Text → Option Fault
  | [] => none
  | name :: rest =>
    if name = ".." then
      let isStuck := start == 0 && done.head?.all (· = Text.ofString "..")
      faultFrom start (if isStuck then name :: done else done.tail) rest
    else if isProper name then faultFrom start (name :: done) rest
    else some (nameFault (start + positionBehind done) name)

/-- What is wrong with a path that is followed name by name. -/
def fault? (p : Path) : Option Fault := faultFrom (if p.isAbsolute then 1 else 0) [] p.parts

/-- Whether a path holds a NUL character. -/
def hasNull (p : Path) : Bool := p.parts.any fun name => name.runes.contains '\x00'

/-- Whether a path holds a code point that cannot stand in the name of a file. -/
def hasHalf (p : Path) : Bool := p.parts.any fun name => !name.runes.all canName

end Path

end CallAtlas
