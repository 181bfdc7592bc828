import CallAtlas.Todo.Script

/-! # To-do lists in documents -/

namespace CallAtlas

/-- The label that a document stands for, unless it is a list or an object. -/
def Label.ofAtom? : Json → Option Label
  | .null => some .nothing
  | .bool b => some (.flag b)
  | .int n => some (.number n)
  | .float x => some (.float x)
  | .str s => some (.text s)
  | _ => none

/-- The label that a document stands for. The items of a list are not lists themselves. -/
def Label.ofJson? : Json → Option Label
  | .arr items => (items.mapM Label.ofAtom?).map .list
  | j => Label.ofAtom? j

mutual
/-- The document of a label. -/
def Label.toJson : Label → Json
  | .nothing => .null
  | .flag b => .bool b
  | .number n => .int n
  | .float x => .float x
  | .text s => .str s
  | .list items => .arr (Label.allToJson items)
def Label.allToJson : List Label → List Json
  | [] => []
  | a :: as => a.toJson :: Label.allToJson as
end

namespace Todo

/-- What is done with the label that a document stands for. -/
def Action.on (act : Label → Action) (j : Json) : Action :=
  match Label.ofJson? j with
  | some id => act id
  | none => .misnamed

/-- The action that a document describes; null describes none. -/
def Action.ofJson? (j : Json) : Option Action :=
  match j, j.field? "submit", j.field? "add" with
  | .null, _, _ => none
  | _, some id, _ => some (.on (.submit · ((j.field? "value").getD .null)) id)
  | _, none, some id => some (.on .add id)
  | _, none, none => match j.text? with
    | none => some .nothing
    | some word =>
      if word = "raise" then some .fail
      else if word = "raise_if_null" then some .failOnNull
      else some .nothing

end Todo

end CallAtlas
