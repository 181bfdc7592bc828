import CallAtlas.Json.Basic
import CallAtlas.Todo.Basic
import CallAtlas.Todo.Label

/-! # Scripted reactions

Tasks whose reactions are written down: they note what is submitted and may then fail, submit
another task or add one. A task that submits itself, perhaps through others, never comes to an
end. -/

namespace CallAtlas.Todo

/-- What a task does after it has noted a submission. -/
inductive Action where
  | nothing
  | fail
  | failOnNull
  | submit (id : Label) (value : Json)
  | add (id : Label)
  /-- To submit or add something that is no label. -/
  | misnamed

/-- What a task carries. -/
structure Errand where
  payload : Json
  extra : Json
  action : Option Action

/-- The names of the parts of a task; nothing extra can have one of them. -/
def reservedNames : List Text := ["self", "task_id", "payload", "callback"]

/-- Whether extra parts of a task have names that are free. -/
def isExtra (extra : List (Text × Json)) : Bool :=
  extra.all fun f => !reservedNames.contains f.1

/-- Why a reaction fails. -/
inductive Failure where
  | boom
  | boomOnNull
  | endless
  | misnamed
  deriving DecidableEq, Repr

def Failure.message : Failure → Text
  | .boom => "boom"
  | .boomOnNull => "boom null"
  | .endless => "a submission that waits for itself"
  | .misnamed => "not a label"

/-- A to-do list of errands. -/
abbrev Errands := TodoList Label Json Errand

/-- Errands with a record of the submissions that were noted. -/
abbrev Desk := Errands × List (Label × Json)

abbrev Outcome := Desk × Option (TodoError Label Failure)

/-- What a submission with a value does first, where `again` submits another task. -/
def react (again : Label → Json → Desk → Outcome) :
    TodoList.Reaction Label Json Errand (List (Label × Json)) Failure :=
  fun task id value (list, log) => match task.detail.action with
    | none => ((list, log), none)
    | some action =>
      let log := log ++ [(id, value)]
      match action with
      | .nothing => ((list, log), none)
      | .fail => ((list, log), some (.reaction .boom))
      | .failOnNull => match value with
        | .null => ((list, log), some (.reaction .boomOnNull))
        | _ => ((list, log), none)
      | .misnamed => ((list, log), some (.reaction .misnamed))
      | .submit other value => again other value (list, log)
      | .add other => match list.add other ⟨.null, .obj [], none⟩ with
        | .ok list => ((list, log), none)
        | .error e => ((list, log), some e)

/-- Submits a task where submissions may lead to others up to a depth. -/
def submitWithin : Nat → Label → Json → Desk → Outcome
  | 0, _, _, desk => (desk, some (.reaction .endless))
  | depth + 1, id, value, desk => TodoList.submit (react (submitWithin depth)) id value desk

/-- Submits a task. A chain of submissions that ends comes to no task twice. -/
def submit (id : Label) (value : Json) (desk : Desk) : Outcome :=
  submitWithin (desk.1.size + 1) id value desk

end CallAtlas.Todo
