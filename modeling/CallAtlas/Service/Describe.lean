import CallAtlas.Service.Atlas

/-! # Notes on definitions

A to-do list asks for a note on every definition. A task belongs to the index it was made for: its
note goes there, even if another index has been set up since. -/

namespace CallAtlas.Service

/-! ## Filling the list -/

/-- The order in which definitions are put on the list. -/
inductive Policy where
  | arbitrary
  | calleesFirst
  | callersFirst
  deriving DecidableEq, Repr

def Policy.ofText? (name : Text) : Option Policy :=
  if name = "arbitrary" then some .arbitrary
  else if name = "bfs_callee_to_caller" then some .calleesFirst
  else if name = "bfs_caller_to_callee" then some .callersFirst
  else none

/-- All definitions of an index. -/
def allSites (ix : Index) : List Site :=
  ix.symbols.flatMap fun s => (ix.definitions s).map fun d => ⟨s, d.location⟩

/-- The definition at a place; of several symbols the last one counts. -/
def siteAt? (ix : Index) (l : Location) : Option Site :=
  (allSites ix).reverse.find? fun s => decide (s.location = l)

/-- The note on a definition. -/
def noteOn (ix : Index) (site : Site) : Option Note :=
  (ix.definitionAt? site.symbol site.location).bind Definition.note

/-- The definitions of an index in the order of a policy. -/
def sitesBy (ix : Index) : Policy → Tool (List Site)
  | .arbitrary => return allSites ix
  | .calleesFirst => return (← order .backward).filterMap (siteAt? ix)
  | .callersFirst => return (← order .forward).filterMap (siteAt? ix)

/-- Puts a definition on a list, unless it is there already, or has a note and such are skipped. -/
def enqueue (ix : Index) (serial : Nat) (skipNoted : Bool) (list : TodoList Site Note Nat)
    (site : Site) : TodoList Site Note Nat :=
  if skipNoted && (noteOn ix site).isSome then list
  else match (list.add site serial : Except (TodoError Site Empty) _) with
    | .ok list => list
    | .error _ => list

/-- Puts the definitions of the index on the list. -/
def fillTodo (policy : Policy) (skipNoted : Bool) : Tool Unit := do
  let st ← current .notSetUpForTodo
  let ix := st.indexer.index
  let sites ← sitesBy ix policy
  modify fun s => { s with todo := sites.foldl (enqueue ix st.serial skipNoted) s.todo }

/-- Puts the definitions without a note on the list. -/
def startTodo : Tool Text := do
  logCall
  fillTodo .arbitrary true
  return "Definition todo list is ready."

/-- Puts the definitions on the list in the order of a policy. -/
def startTodoBy (policy : Option Text) (skipNoted : Bool) : Tool Text := do
  logCall
  match policy with
  | none => fillTodo .arbitrary skipNoted
  | some name => match Policy.ofText? name with
    | none => throw (.unknownPolicy name)
    | some p => fillTodo p skipNoted
  return "Definition todo list is ready with policy: " ++ policy.getD "arbitrary"

/-! ## Working on the list -/

/-- Some definition that waits for a note. -/
def nextTask : Tool (Option Site) := do
  logCall
  let (todo, task) := (← get).todo.anyPending
  modify fun s => { s with todo := todo }
  return task.map Task.id

/-- At most `n` definitions that wait for a note. -/
def pendingTasks (n : Int) : Tool (List Site) := do
  logCall
  return (← get).todo.pendingIds (some n) 0

/-- The definition of a symbol at a place. -/
def fullDefinition (site : Site) : Tool (Option Definition) := do
  logCall
  return (← index).definitionAt? site.symbol site.location

/-- The note on a definition of the current index. -/
def note (site : Site) : Tool (Option Note) := do return noteOn (← index) site

/-- A definition that is nothing but a place and a note. -/
def noted (l : Location) (n : Note) : Definition := (Definition.bare l).setNote (some n)

/-- Puts a note into the index with a serial number, if it is the one that is set up. -/
def noteInto (serial : Nat) (site : Site) (n : Note) (st : Setup) : Setup :=
  if st.serial = serial then
    { st with indexer := st.indexer.addDefinition site.symbol (noted site.location n) }
  else st

/-- The reaction of a task: its note goes into the index it was made for. -/
def react : TodoList.Reaction Site Note Nat (Option Setup) Empty :=
  fun task site n (list, setup) => ((list, setup.map (noteInto task.detail site n)), none)

/-- Takes a note: a task on the list is submitted, anything else goes into the index directly. The
index is then put into the cache. -/
def takeNote [Library] (site : Site) (n : Note) : Tool Text := do
  let s ← get
  if (s.todo.find? site).isSome then
    let ((todo, setup), _) := TodoList.submit react site n (s.todo, s.setup)
    set { s with todo := todo, setup := setup }
  else
    discard (current .notSetUp)
    onIndexer fun x => x.addDefinition site.symbol (noted site.location n)
  discard persist
  return "Note submitted for " ++ site.symbol.name ++ " at " ++ site.location.toText

/-- Takes a note on a definition. -/
def submit [Library] (site : Site) (n : Note) : Tool Text := do
  logCall
  takeNote site n

/-! ## Progress -/

/-- A definition in a report. -/
def reported (site : Site) : Text := site.symbol.name ++ " at " ++ site.location.file.toText

/-- A line of a report about definitions, if there are any. -/
def reportLine (heading : Text) (sites : List Site) : List Text :=
  if sites.isEmpty then []
  else [heading ++ " (" ++ Text.ofNat sites.length ++ "): "
    ++ Text.join ", " (sites.map reported)]

/-- How far a list has come. -/
def report (list : TodoList Site Note Nat) : Text :=
  Text.join "\n" (("Progress: " ++ list.toText)
    :: (reportLine "Unfinished" (list.pendingIds (some 5) 0)
      ++ reportLine "Recently submitted" (list.lastSubmitted 5)))

/-- How far the list has come. -/
def progress : Tool Text := do
  logCall
  return report (← get).todo

end CallAtlas.Service
