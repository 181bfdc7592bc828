import CallAtlas.Value.Printed

/-! # Normal forms

The normal form of a value does not depend on the order of its lists: records become dictionaries,
paths are resolved, and every collection becomes a list in the order of its items' printed forms. -/

namespace CallAtlas.Value

/-- Why a value has no normal form. -/
inductive NormalError where
  /-- A kind of records stands in place of a record. -/
  | kindOfRecords
  /-- No file can have a path. -/
  | path (fault : Path.Fault)
  deriving DecidableEq, Repr

def NormalError.message : NormalError → Text
  | .kindOfRecords => "Expected an instance of a dataclass, not a class."
  | .path fault => fault.message

/-- Whether one key does not come after another. -/
def keyBefore {α : Type} (a b : Text × α) : Bool := a.1.le b.1

/-- Items in the order of their keys; items of one key keep their order. -/
def sortOn {α : Type} (key : α → Text) (items : List α) : List α :=
  ((items.map fun a => (key a, a)).mergeSort keyBefore).map Prod.snd

/-- Values in the order of their printed forms. -/
def sorted (items : List Value) : List Value := sortOn toText items

/-- Whether a kind is a kind of records. -/
def isRecordKind (c : Catalog) (name : Text) : Bool :=
  (c.find? name).any fun k => k.fields.isSome

/-- The text of a path from the root. -/
def resolved (cwd p : Path) : Except NormalError Text :=
  match p.fault? with
  | some fault => .error (.path fault)
  | none => .ok (Path.resolve cwd p).toText

mutual
/-- The normal form of a value, where relative paths start at `cwd`. -/
def normal (c : Catalog) (cwd : Path) : Value → Except NormalError Value
  | .path p => (resolved cwd p).map .text
  | .location l => (resolved cwd l.file).map (ofLocation l)
  | .list items => (normalAll c cwd items).map fun vs => .list (sorted vs)
  | .tuple items => (normalAll c cwd items).map fun vs => .list (sorted vs)
  | .set items => (normalAll c cwd items).map fun vs => .list (sorted vs)
  | .table entries => (normalEntries c cwd entries).map .table
  | .record _ fields => (normalFields c cwd fields).map ofFields
  | .kind name => if isRecordKind c name then .error .kindOfRecords else .ok (.kind name)
  | v => .ok v
def normalAll (c : Catalog) (cwd : Path) : List Value → Except NormalError (List Value)
  | [] => .ok []
  | v :: vs => do
    let v ← normal c cwd v
    let vs ← normalAll c cwd vs
    return v :: vs
def normalEntries (c : Catalog) (cwd : Path) :
    List (Value × Value) → Except NormalError (List (Value × Value))
  | [] => .ok []
  | (k, v) :: rest => do
    let v ← normal c cwd v
    let rest ← normalEntries c cwd rest
    return (k, v) :: rest
def normalFields (c : Catalog) (cwd : Path) :
    List (Text × Value) → Except NormalError (List (Text × Value))
  | [] => .ok []
  | (k, v) :: rest => do
    let v ← normal c cwd v
    let rest ← normalFields c cwd rest
    return (k, v) :: rest
end

end CallAtlas.Value
