import CallAtlas.Json.Basic

/-! # Reading documents

The reader builds its values while it goes, so that an object is put together, or refused, as soon
as its closing brace has been read. -/

namespace CallAtlas.Json

/-- Why a text gives no value: it is no document, or an object in it was refused. -/
inductive ReadError (ε : Type) where
  | malformed
  /-- An integer has too many digits. -/
  | tooLong
  /-- Lists and objects are nested too deeply. -/
  | tooDeep
  | refused (cause : ε)
  deriving Repr

/-- What a document may hold at most: digits in an integer, and lists and objects that stand in
each other. -/
structure Limits where
  digits : Option Nat
  depth : Option Nat

/-- No limits at all. -/
def Limits.none : Limits := ⟨Option.none, Option.none⟩

/-- The limits inside a list or an object. -/
def Limits.enter {ε : Type} (limits : Limits) : Except (ReadError ε) Limits :=
  match limits.depth with
  | some 0 => .error .tooDeep
  | some (n + 1) => .ok { limits with depth := some n }
  | Option.none => .ok limits

/-- Whether an integer of so many digits may be read. -/
def Limits.admits (limits : Limits) (digits : Nat) : Bool :=
  limits.digits.all fun most => decide (digits ≤ most)

/-- Blanks between the parts of a document. -/
def isSpace (c : Char) : Bool := c == ' ' || c == '\t' || c == '\n' || c == '\r'

/-- The rest of a text after blanks. -/
def skip (cs : List Char) : List Char := cs.dropWhile isSpace

/-- The value of a hexadecimal digit. -/
def hexValue? (c : Char) : Option Nat :=
  let n := c.toNat
  if 48 ≤ n ∧ n ≤ 57 then some (n - 48)
  else if 97 ≤ n ∧ n ≤ 102 then some (n - 87)
  else if 65 ≤ n ∧ n ≤ 70 then some (n - 55)
  else none

/-- The number that four hexadecimal digits stand for. -/
def hex4? (a b c d : Char) : Option Nat := do
  let a ← hexValue? a
  let b ← hexValue? b
  let c ← hexValue? c
  let d ← hexValue? d
  return 4096 * a + 256 * b + 16 * c + d

/-- The character that a letter after a backslash stands for. -/
def simpleEscape? (c : Char) : Option Char :=
  if c = '"' ∨ c = '\\' ∨ c = '/' then some c
  else if c = 'n' then some '\n'
  else if c = 'r' then some '\r'
  else if c = 't' then some '\t'
  else if c = 'b' then some (Char.ofNat 8)
  else if c = 'f' then some (Char.ofNat 12)
  else none

/-- What stands in a text up to its closing quote, and what follows. -/
def textBody : List Char → Option (List Rune × List Char)
  | [] => none
  | '"' :: rest => some ([], rest)
  | '\\' :: 'u' :: a :: b :: c :: d :: rest =>
    match hex4? a b c d with
    | none => none
    | some n => (textBody rest).map fun r => (.ofUnit n :: r.1, r.2)
  | '\\' :: e :: rest =>
    match simpleEscape? e with
    | none => none
    | some c => (textBody rest).map fun r => (.char c :: r.1, r.2)
  | c :: rest =>
    if c.toNat < 32 ∨ c = '\\' then none else (textBody rest).map fun r => (.char c :: r.1, r.2)

/-- The digits at the start of a text, and what follows. -/
def digits (cs : List Char) : List Char × List Char :=
  (cs.takeWhile Text.isDigit, cs.dropWhile Text.isDigit)

/-- The digits behind a decimal point, if there are a point and digits. -/
def fraction : List Char → Option (List Char × List Char)
  | '.' :: rest => match digits rest with
    | ([], _) => none
    | r => some r
  | _ => none

/-- An exponent, if there are its mark and digits. -/
def exponent : List Char → Option (Int × List Char)
  | e :: rest =>
    if e = 'e' ∨ e = 'E' then
      match rest with
      | '-' :: more => match digits more with
        | ([], _) => none
        | (ds, r) => some (- Int.ofNat (Text.value ds), r)
      | '+' :: more => match digits more with
        | ([], _) => none
        | (ds, r) => some (Int.ofNat (Text.value ds), r)
      | more => match digits more with
        | ([], _) => none
        | (ds, r) => some (Int.ofNat (Text.value ds), r)
    else none
  | [] => none

/-- The digits of a whole number: a zero alone, or digits that do not start with one. -/
def whole : List Char → Option (List Char × List Char)
  | '0' :: rest => some (['0'], rest)
  | cs => match digits cs with
    | ([], _) => none
    | r => some r

/-- A number: with a fraction or an exponent it is a floating-point number. -/
def readNumber {ε α : Type} (limits : Limits) (build : Builder ε α) (cs : List Char) :
    Except (ReadError ε) (α × List Char) :=
  let (negative, rest) := match cs with
    | '-' :: rest => (true, rest)
    | rest => (false, rest)
  match whole rest with
  | none => .error .malformed
  | some (ds, rest) =>
    let signed (n : Nat) : Int := if negative then - Int.ofNat n else Int.ofNat n
    match fraction rest with
    | some (fs, rest) =>
      let (e, rest) := (exponent rest).getD (0, rest)
      .ok (build.float (.ofDecimal negative (Text.value (ds ++ fs)) (e - Int.ofNat fs.length)),
        rest)
    | none => match exponent rest with
      | some (e, rest) => .ok (build.float (.ofDecimal negative (Text.value ds) e), rest)
      | none =>
        if limits.admits ds.length then .ok (build.int (signed (Text.value ds)), rest)
        else .error .tooLong

/-- The rest of a text after a word, if it starts with it. -/
def after? (word : List Char) (cs : List Char) : Option (List Char) :=
  if word.isPrefixOf cs then some (cs.drop word.length) else none

/-- The values that are written as words. -/
def words {ε α : Type} (build : Builder ε α) : List (String × α) :=
  [("null", build.null), ("true", build.bool true), ("false", build.bool false),
   ("NaN", build.float .notANumber), ("Infinity", build.float (.infinite false)),
   ("-Infinity", build.float (.infinite true))]

/-- A value that is one word or one number. -/
def readWord {ε α : Type} (limits : Limits) (build : Builder ε α) (cs : List Char) :
    Except (ReadError ε) (α × List Char) :=
  match (words build).findSome? fun w => (after? w.1.toList cs).map fun rest => (w.2, rest) with
  | some r => .ok r
  | none => readNumber limits build cs

mutual
/-- Reads one value; `fuel` bounds the number of values, items and fields. The limit on depth
counts the lists and objects that may still be opened. -/
def readValue {ε α : Type} (build : Builder ε α) :
    Nat → Limits → List Char → Except (ReadError ε) (α × List Char)
  | 0, _, _ => .error .malformed
  | fuel + 1, limits, cs => match cs with
    | '"' :: rest => match textBody rest with
      | none => .error .malformed
      | some (s, rest) => .ok (build.str (.ofRunes s), rest)
    | '[' :: rest => do
      let limits ← limits.enter
      match skip rest with
      | ']' :: rest => return (build.arr [], rest)
      | rest =>
        let (items, rest) ← readItems build fuel limits rest
        return (build.arr items, rest)
    | '{' :: rest => do
      let limits ← limits.enter
      let (fields, rest) ← match skip rest with
        | '}' :: rest => pure ([], rest)
        | rest => readFields build fuel limits rest
      match build.obj fields with
      | .error e => .error (.refused e)
      | .ok a => return (a, rest)
    | cs => readWord limits build cs

/-- Reads the items of a list up to its closing bracket. -/
def readItems {ε α : Type} (build : Builder ε α) :
    Nat → Limits → List Char → Except (ReadError ε) (List α × List Char)
  | 0, _, _ => .error .malformed
  | fuel + 1, limits, cs => do
    let (a, rest) ← readValue build fuel limits cs
    match skip rest with
    | ']' :: rest => return ([a], rest)
    | ',' :: rest =>
      let (as, rest) ← readItems build fuel limits (skip rest)
      return (a :: as, rest)
    | _ => .error .malformed

/-- Reads the fields of an object up to its closing brace. -/
def readFields {ε α : Type} (build : Builder ε α) :
    Nat → Limits → List Char → Except (ReadError ε) (List (Text × α) × List Char)
  | 0, _, _ => .error .malformed
  | fuel + 1, limits, cs => match cs with
    | '"' :: rest => match textBody rest with
      | none => .error .malformed
      | some (k, rest) => match skip rest with
        | ':' :: rest => do
          let (a, rest) ← readValue build fuel limits (skip rest)
          match skip rest with
          | '}' :: rest => return ([(.ofRunes k, a)], rest)
          | ',' :: rest =>
            let (as, rest) ← readFields build fuel limits (skip rest)
            return ((.ofRunes k, a) :: as, rest)
          | _ => .error .malformed
        | _ => .error .malformed
    | _ => .error .malformed
end

/-- The value of a text that is one document within limits and nothing else. Every value, item and
field takes at least one character, and an item or a field is read together with its value. -/
def read {ε α : Type} (limits : Limits) (build : Builder ε α) (cs : List Char) :
    Except (ReadError ε) α := do
  let (a, rest) ← readValue build (2 * cs.length + 2) limits (skip cs)
  if (skip rest).isEmpty then return a else .error .malformed

/-- The document of a text, if it keeps within limits. -/
def parseWithin (limits : Limits) (s : String) : Option Json :=
  match read limits (plain (ε := Empty)) s.toList with
  | .ok j => some j
  | .error _ => none

/-- The document of a text. -/
def parse (s : String) : Option Json := parseWithin .none s

end CallAtlas.Json
