import CallAtlas.Text.Numeral

/-! # Binary floating-point numbers of 64 bits

A finite number is a mantissa times a power of two. Reading a decimal takes the nearest such
number, the even mantissa winning a tie; writing takes the fewest digits that read back, and of
those the nearest. Both are exact arithmetic on natural numbers. -/

namespace CallAtlas.Decimal

/-- A floating-point number. A finite one has a mantissa below `2 ^ 53` and an exponent of at least
`-1074`; the mantissa is at least `2 ^ 52` unless the exponent is the least one. -/
inductive Binary64 where
  | finite (negative : Bool) (mantissa : Nat) (exponent : Int)
  | infinite (negative : Bool)
  | notANumber
  deriving DecidableEq, Repr

namespace Binary64

/-- A quotient of natural numbers, the denominator positive. -/
structure Ratio where
  num : Nat
  den : Nat

/-- `n` times a power of a base, as a quotient. -/
def Ratio.scaled (n base : Nat) : Int → Ratio
  | .ofNat e => ⟨n * Nat.pow base e, 1⟩
  | .negSucc e => ⟨n, Nat.pow base (e + 1)⟩

def Ratio.le (a b : Ratio) : Bool := decide (a.num * b.den ≤ b.num * a.den)

def Ratio.lt (a b : Ratio) : Bool := decide (a.num * b.den < b.num * a.den)

/-- A quotient times a power of two. -/
def Ratio.shift (a : Ratio) : Int → Ratio
  | .ofNat e => ⟨a.num * Nat.pow 2 e, a.den⟩
  | .negSucc e => ⟨a.num, a.den * Nat.pow 2 (e + 1)⟩

/-- The nearest natural number, the even one of two. -/
def Ratio.round (a : Ratio) : Nat :=
  let q := a.num / a.den
  let r := a.num % a.den
  if 2 * r < a.den then q
  else if a.den < 2 * r then q + 1
  else if q % 2 = 0 then q else q + 1

/-- The floating-point number nearest to a positive quotient. -/
def nearest (negative : Bool) (a : Ratio) : Binary64 :=
  let start : Int := Int.ofNat (Nat.log2 a.num) - Int.ofNat (Nat.log2 a.den) - 52
  let exact := if (a.shift (-start)).lt ⟨Nat.pow 2 52, 1⟩ then start - 1 else start
  let e := max exact (-1074)
  let m := (a.shift (-e)).round
  let (m, e) := if m = Nat.pow 2 53 then (Nat.pow 2 52, e + 1) else (m, e)
  if 971 < e then .infinite negative else .finite negative m e

/-- The floating-point number nearest to `digits * 10 ^ exponent`. Decimals beyond every finite
number are infinite and decimals below every positive one are zero. -/
def ofDecimal (negative : Bool) (digits : Nat) (exponent : Int) : Binary64 :=
  if digits = 0 then .finite negative 0 (-1074)
  else
    let size := exponent + Int.ofNat (Text.numeral digits).length
    if 310 < size then .infinite negative
    else if size < -330 then .finite negative 0 (-1074)
    else nearest negative (Ratio.scaled digits 10 exponent)

/-! ## The shortest decimal -/

/-- The largest power of ten that a positive quotient reaches. -/
def decimalExponent (a : Ratio) : Int :=
  if a.den ≤ a.num then Int.ofNat (Text.numeral (a.num / a.den)).length - 1
  else
    let size := (Text.numeral (a.den / a.num)).length
    if a.num * Nat.pow 10 (size - 1) = a.den then 1 - Int.ofNat size else - Int.ofNat size

/-- The numbers that read back as `mantissa * 2 ^ exponent` lie between these two. -/
def bounds (mantissa : Nat) (exponent : Int) : Ratio × Ratio :=
  let below := if mantissa = Nat.pow 2 52 ∧ -1074 < exponent then 4 * mantissa - 1
    else 4 * mantissa - 2
  (Ratio.scaled below 2 (exponent - 2), Ratio.scaled (4 * mantissa + 2) 2 (exponent - 2))

/-- Whether a quotient lies between the bounds, which count themselves for an even mantissa. -/
def inside (mantissa : Nat) (exponent : Int) (a : Ratio) : Bool :=
  let (low, high) := bounds mantissa exponent
  if mantissa % 2 = 0 then low.le a && a.le high else low.lt a && a.lt high

/-- The decimal of `count` digits that reads back, if there is one: its digits and its exponent. Of
the two neighbours on that grid the nearer is taken, the even one of a tie. -/
def decimalOf (mantissa : Nat) (exponent : Int) (count : Nat) : Option (Nat × Int) :=
  let v := Ratio.scaled mantissa 2 exponent
  let k := decimalExponent v - Int.ofNat count + 1
  let grid : Ratio := match k with
    | .ofNat e => ⟨v.num, v.den * Nat.pow 10 e⟩
    | .negSucc e => ⟨v.num * Nat.pow 10 (e + 1), v.den⟩
  let down := grid.num / grid.den
  let fits (d : Nat) : Bool := decide (0 < d) && inside mantissa exponent (Ratio.scaled d 10 k)
  match fits down, fits (down + 1) with
  | true, true => some (grid.round, k)
  | true, false => some (down, k)
  | false, true => some (down + 1, k)
  | false, false => none

/-- The shortest decimal that reads back as a positive number; seventeen digits always do. -/
def shortest (mantissa : Nat) (exponent : Int) : Nat × Int :=
  ((List.range 17).findSome? fun n => decimalOf mantissa exponent (n + 1)).getD (mantissa, 0)

/-! ## Text -/

/-- Digits with the decimal point after the first `point` of them, which may be zero or fewer. At
most sixteen whole places and three zeros behind the point are written out; beyond that the number
has an exponent of at least two digits. -/
def layout (ds : List Char) (point : Int) : List Char :=
  if -4 < point ∧ point ≤ 16 then
    if point ≤ 0 then
      '0' :: '.' :: (List.replicate (-point).toNat '0' ++ ds)
    else if ds.length ≤ point.toNat then
      ds ++ List.replicate (point.toNat - ds.length) '0' ++ ['.', '0']
    else ds.take point.toNat ++ '.' :: ds.drop point.toNat
  else
    let e := point - 1
    let power := Text.numeral e.natAbs
    ds.take 1 ++ (if ds.length ≤ 1 then [] else '.' :: ds.drop 1) ++
      ['e', if e < 0 then '-' else '+'] ++ List.replicate (2 - power.length) '0' ++ power

/-- Digits without the zeros at their end. -/
def stripZeros (ds : List Char) : List Char := (ds.reverse.dropWhile (· == '0')).reverse

/-- The shortest text that reads back as the number. -/
def render : Binary64 → List Char
  | .notANumber => "nan".toList
  | .infinite negative => (if negative then ['-'] else []) ++ "inf".toList
  | .finite negative mantissa exponent =>
    (if negative then ['-'] else []) ++
      if mantissa = 0 then "0.0".toList
      else
        let (d, k) := shortest mantissa exponent
        let all := Text.numeral d
        layout (stripZeros all) (Int.ofNat all.length + k)

/-- Whether a number and an integer are the same. -/
def eqInt (x : Binary64) (n : Int) : Bool :=
  match x with
  | .finite negative mantissa exponent =>
    let v := Ratio.scaled mantissa 2 exponent
    v.num == n.natAbs * v.den && (decide (n = 0) || negative == decide (n < 0))
  | _ => false

/-- Whether two numbers are the same value: both zeros are, and no number is not itself. -/
def sameValue : Binary64 → Binary64 → Bool
  | .finite negative mantissa exponent, .finite negative' mantissa' exponent' =>
    let v := Ratio.scaled mantissa 2 exponent
    let w := Ratio.scaled mantissa' 2 exponent'
    v.num * w.den == w.num * v.den && (mantissa == 0 || negative == negative')
  | .infinite n, .infinite n' => n == n'
  | _, _ => false

end Binary64

end CallAtlas.Decimal
