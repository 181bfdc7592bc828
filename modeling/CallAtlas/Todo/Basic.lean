import CallAtlas.Text.Numeral
import CallAtlas.Window

/-! # To-do lists

Tasks are added under an identity, wait, and are submitted with a result. A task may come with a
reaction, which runs before the submission counts: if it fails, the task goes on waiting.

Besides the tasks, a list keeps the identities that are pending and those that were submitted, in
the order of their submissions. Both may run ahead of the tasks when a task is taken out or marked
by hand; the operations that look at pending tasks cope with that. -/

namespace CallAtlas

/-- A task: its identity, what it carries, and its result once it is submitted. -/
structure Task (ι ρ τ : Type) where
  id : ι
  detail : τ
  submitted : Bool
  result : Option ρ

/-- A to-do list. -/
structure TodoList (ι ρ τ : Type) where
  name : Text
  tasks : List (Task ι ρ τ)
  pending : List ι
  recent : List ι
  /-- Whether a task can be submitted more than once. -/
  resubmit : Bool

/-- Why an operation on a to-do list fails; reactions have failures of their own. -/
inductive TodoError (ι ε : Type) where
  | taken (id : ι)
  | missing (id : ι)
  | submitted (id : ι)
  | reaction (cause : ε)

/-- The text of a failure, given the texts of identities and of failed reactions. -/
def TodoError.message {ι ε : Type} (shown : ι → Text) (failed : ε → Text) :
    TodoError ι ε → Text
  | .taken id => "Task id already exists: " ++ shown id
  | .missing id => "Task id not found: " ++ shown id
  | .submitted id => "Task already submitted: " ++ shown id
  | .reaction cause => failed cause

namespace TodoList

variable {ι ρ τ : Type}

/-- The list without tasks. -/
def empty (name : Text) (resubmit : Bool) : TodoList ι ρ τ := ⟨name, [], [], [], resubmit⟩

/-- The number of tasks. -/
def size (l : TodoList ι ρ τ) : Nat := l.tasks.length

/-- The number of pending identities. -/
def pendingSize (l : TodoList ι ρ τ) : Nat := l.pending.length

/-- The identities of the tasks in order. -/
def ids (l : TodoList ι ρ τ) : List ι := l.tasks.map Task.id

/-- The printed form of a list. -/
def toText (l : TodoList ι ρ τ) : Text :=
  l.name ++ "(total=" ++ Text.ofNat l.size ++ ", pending=" ++ Text.ofNat l.pendingSize ++ ")"

def rename (l : TodoList ι ρ τ) (name : Text) : TodoList ι ρ τ := { l with name := name }

/-- The last `n` submissions. For zero these are all of them, and a negative number leaves out that
many of the oldest. -/
def lastSubmitted (l : TodoList ι ρ τ) (n : Int) : List ι := window l.recent (some (-n)) none

variable [BEq ι]

/-- The task of an identity. -/
def find? (l : TodoList ι ρ τ) (id : ι) : Option (Task ι ρ τ) := l.tasks.find? fun t => t.id == id

/-- Changes the task of an identity. -/
def change (l : TodoList ι ρ τ) (id : ι) (f : Task ι ρ τ → Task ι ρ τ) : TodoList ι ρ τ :=
  { l with tasks := l.tasks.map fun t => if t.id == id then f t else t }

/-- Removes an identity from those that are pending. -/
def settle (l : TodoList ι ρ τ) (id : ι) : TodoList ι ρ τ :=
  { l with pending := l.pending.filter fun p => !(p == id) }

/-! ## Adding and submitting -/

/-- Adds a task that waits. -/
def add {ε : Type} (l : TodoList ι ρ τ) (id : ι) (detail : τ) :
    Except (TodoError ι ε) (TodoList ι ρ τ) :=
  if (l.find? id).isSome then .error (.taken id)
  else .ok { l with
    tasks := l.tasks ++ [⟨id, detail, false, none⟩]
    pending := if l.pending.contains id then l.pending else l.pending ++ [id] }

/-- Records a submission. -/
def complete (l : TodoList ι ρ τ) (id : ι) (value : ρ) : TodoList ι ρ τ :=
  let l := (l.change id fun t => { t with submitted := true, result := some value }).settle id
  { l with recent := l.recent ++ [id] }

/-- What happens when a task is about to be submitted under an identity with a value: a change of
the list and of what is around it, and perhaps a failure. -/
abbrev Reaction (ι ρ τ σ ε : Type) :=
  Task ι ρ τ → ι → ρ → TodoList ι ρ τ × σ → (TodoList ι ρ τ × σ) × Option (TodoError ι ε)

/-- Submits a task: the reaction runs first, and the submission counts only if it succeeds. -/
def submit {σ ε : Type} (react : Reaction ι ρ τ σ ε) (id : ι) (value : ρ)
    (st : TodoList ι ρ τ × σ) : (TodoList ι ρ τ × σ) × Option (TodoError ι ε) :=
  match st.1.find? id with
  | none => (st, some (.missing id))
  | some task =>
    if task.submitted && !st.1.resubmit then (st, some (.submitted id))
    else match react task id value st with
      | (st, some e) => (st, some e)
      | (st, none) => ((st.1.complete id value, st.2), none)

/-! ## Looking -/

/-- Whether a task is there and submitted. -/
def isSubmitted (l : TodoList ι ρ τ) (id : ι) : Bool := (l.find? id).any Task.submitted

/-- The pending tasks in the order of the list; submitted ones are no longer pending afterwards. -/
def takePending (l : TodoList ι ρ τ) : TodoList ι ρ τ × List (Task ι ρ τ) :=
  ({ l with pending := l.pending.filter fun p => !l.isSubmitted p },
    l.tasks.filter fun t => l.pending.contains t.id && !t.submitted)

/-- Whether the task of an identity is pending. -/
def isPending {ε : Type} (l : TodoList ι ρ τ) (id : ι) : Except (TodoError ι ε) Bool :=
  match l.find? id with
  | none => .error (.missing id)
  | some t => .ok (l.pending.contains id && !t.submitted)

/-- The first of some identities whose task waits, with those that are left from it on. -/
def firstWaiting (l : TodoList ι ρ τ) : List ι → List ι × Option (Task ι ρ τ)
  | [] => ([], none)
  | id :: rest => match l.find? id with
    | none => l.firstWaiting rest
    | some t => if t.submitted then l.firstWaiting rest else (id :: rest, some t)

/-- Some pending task. Identities that are found not to wait are no longer pending afterwards. -/
def anyPending (l : TodoList ι ρ τ) : TodoList ι ρ τ × Option (Task ι ρ τ) :=
  let (pending, found) := l.firstWaiting l.pending
  ({ l with pending := pending }, found)

/-- The pending identities in the order of the list, from an offset on and at most `limit`. -/
def pendingIds (l : TodoList ι ρ τ) (limit : Option Int) (offset : Int) : List ι :=
  window (l.ids.filter l.pending.contains) (some offset) (limit.map (offset + ·))

/-- The result of a task that was submitted. -/
def result {ε : Type} (l : TodoList ι ρ τ) (id : ι) : Except (TodoError ι ε) (Option ρ) :=
  match l.find? id with
  | none => .error (.missing id)
  | some t => .ok (if t.submitted then t.result else none)

/-! ## Taking out -/

/-- Takes out the task of an identity and nothing else. -/
def drop {ε : Type} (l : TodoList ι ρ τ) (id : ι) : Except (TodoError ι ε) (TodoList ι ρ τ) :=
  if (l.find? id).isSome then .ok { l with tasks := l.tasks.filter fun t => !(t.id == id) }
  else .error (.missing id)

/-- Takes out one task with all traces of it but repeated submissions. -/
def forget (l : TodoList ι ρ τ) (id : ι) : TodoList ι ρ τ :=
  let l := l.settle id
  { l with
    tasks := l.tasks.filter fun t => !(t.id == id)
    recent := l.recent.eraseP fun r => r == id }

/-- Takes out all submitted tasks, with their number. -/
def clearSubmitted (l : TodoList ι ρ τ) : TodoList ι ρ τ × Nat :=
  let done := (l.tasks.filter Task.submitted).map Task.id
  (done.foldl forget l, done.length)

/-- Moves a task to the end of the list, or to its start. -/
def move {ε : Type} (l : TodoList ι ρ τ) (id : ι) (toEnd : Bool) :
    Except (TodoError ι ε) (TodoList ι ρ τ) :=
  match l.find? id with
  | none => .error (.missing id)
  | some t =>
    let rest := l.tasks.filter fun t => !(t.id == id)
    .ok { l with tasks := if toEnd then rest ++ [t] else t :: rest }

/-- Sets by hand whether a task counts as submitted. -/
def mark {ε : Type} (l : TodoList ι ρ τ) (id : ι) (submitted : Bool) :
    Except (TodoError ι ε) (TodoList ι ρ τ) :=
  if (l.find? id).isSome then .ok (l.change id fun t => { t with submitted := submitted })
  else .error (.missing id)

end TodoList

end CallAtlas
