import CallAtlas.Decimal.Binary64
import CallAtlas.Text.Basic

/-! # Documents

Values of the document format: null, truth values, integers, floating-point numbers, texts, lists
and objects whose fields keep their order. -/

namespace CallAtlas

/-- A document. -/
inductive Json where
  | null
  | bool (b : Bool)
  | int (n : Int)
  | float (x : Decimal.Binary64)
  | str (s : Text)
  | arr (items : List Json)
  | obj (fields : List (Text × Json))
  deriving Repr

namespace Json

instance : Inhabited Json := ⟨.null⟩

/-- The value of a key of an object. -/
def field? (key : Text) : Json → Option Json
  | .obj fields => fields.lookup key
  | _ => none

/-- How the parts of a document are put together; only an object can be refused. -/
structure Builder (ε α : Type) where
  null : α
  bool : Bool → α
  int : Int → α
  float : Decimal.Binary64 → α
  str : Text → α
  arr : List α → α
  obj : List (Text × α) → Except ε α

/-- The text that a document is. -/
def text? : Json → Option Text
  | .str s => some s
  | _ => none

/-- Sets a key, keeping its place if it has one. -/
def put {α : Type} (key : Text) (a : α) : List (Text × α) → List (Text × α)
  | [] => [(key, a)]
  | (k, b) :: rest => if k = key then (k, a) :: rest else (k, b) :: put key a rest

/-- Fields with the last value of every key, at the key's first place. -/
def dedup {α : Type} (fields : List (Text × α)) : List (Text × α) :=
  fields.foldl (fun acc f => put f.1 f.2 acc) []

/-- Documents built as they are, the last value of a repeated key replacing the others. -/
def plain {ε : Type} : Builder ε Json :=
  ⟨.null, .bool, .int, .float, .str, .arr, fun fields => .ok (.obj (dedup fields))⟩

mutual
/-- Builds a value from a document, inner parts first. -/
def fold {ε α : Type} (build : Builder ε α) : Json → Except ε α
  | .null => .ok build.null
  | .bool b => .ok (build.bool b)
  | .int n => .ok (build.int n)
  | .float x => .ok (build.float x)
  | .str s => .ok (build.str s)
  | .arr items => do return build.arr (← foldItems build items)
  | .obj fields => do build.obj (← foldFields build fields)

/-- Builds the values of a list in order. -/
def foldItems {ε α : Type} (build : Builder ε α) : List Json → Except ε (List α)
  | [] => .ok []
  | j :: js => do
    let a ← fold build j
    let as ← foldItems build js
    return a :: as

/-- Builds the values of an object's fields in order. -/
def foldFields {ε α : Type} (build : Builder ε α) :
    List (Text × Json) → Except ε (List (Text × α))
  | [] => .ok []
  | (k, j) :: js => do
    let a ← fold build j
    let as ← foldFields build js
    return (k, a) :: as
end

end Json

end CallAtlas
