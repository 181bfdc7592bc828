import CallAtlas.Decimal.Binary64
import CallAtlas.Text.Quoted

/-! # Labels

Identities made of texts, numbers and lists of labels. A flag is the same label as the number one
or zero, and a floating-point number as the integer that it equals, though each is shown as what
it is. -/

namespace CallAtlas

/-- A label. -/
inductive Label where
  | nothing
  | flag (b : Bool)
  | number (n : Int)
  | float (x : Decimal.Binary64)
  | text (s : Text)
  | list (items : List Label)
  deriving Repr

instance : Inhabited Label := ⟨.nothing⟩

namespace Label

/-- The integer that a label is, if it is one. -/
def number? : Label → Option Int
  | flag b => some (if b then 1 else 0)
  | number n => some n
  | _ => none

/-- Whether two labels are the same number. -/
def sameNumber (a b : Label) : Bool :=
  match number? a, number? b, a, b with
  | some m, some n, _, _ => m == n
  | some m, none, _, float y => y.eqInt m
  | none, some n, float x, _ => x.eqInt n
  | none, none, float x, float y => x = y || x.sameValue y
  | _, _, _, _ => false

mutual
/-- Whether two labels are the same. -/
def same : Label → Label → Bool
  | nothing, nothing => true
  | text a, text b => a == b
  | list as, list bs => sameAll as bs
  | a, b => sameNumber a b
def sameAll : List Label → List Label → Bool
  | [], [] => true
  | a :: as, b :: bs => same a b && sameAll as bs
  | _, _ => false
end

instance : BEq Label := ⟨same⟩

mutual
/-- The printed form of a label; a list of one label ends with a comma. -/
def toText : Label → Text
  | nothing => "None"
  | flag b => if b then "True" else "False"
  | number n => Text.ofInt n
  | float x => .ofChars x.render
  | text s => s.quoted
  | list [a] => "(" ++ toText a ++ ",)"
  | list as => "(" ++ Text.join ", " (shownAll as) ++ ")"
def shownAll : List Label → List Text
  | [] => []
  | a :: as => toText a :: shownAll as
end

/-- The printed form of a label that stands alone: a text stands for itself. -/
def plain : Label → Text
  | text s => s
  | a => toText a

end Label

end CallAtlas
