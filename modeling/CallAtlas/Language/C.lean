import CallAtlas.Language.Comment

/-! # C

Only calls of a name are recorded. The declarator of a function may be wrapped in a pointer. -/

namespace CallAtlas.Language.C

/-- The node that names a called function. -/
def callee? (t : Tree) : Option Tree :=
  match t.child? "function" with
  | none => none
  | some f => if f.kind = "identifier" then some f else none

/-- Reads a call; it stands where the whole call expression stands. -/
def call : CallReader := fun s t =>
  match callee? t with
  | none => .ok none
  | some name => (s.text name).map fun n => some (.function n, .bare (s.place t))

/-- The node that names a function in the declarator of its definition. -/
def namedBy? (declarator : Tree) : Option Tree :=
  if declarator.kind = "function_declarator" then match declarator.child? "declarator" with
    | none => none
    | some name => if name.kind = "identifier" then some name else none
  else none

/-- The node that names a defined function. A pointer around the declarator is looked through
once. -/
def name? (t : Tree) : Option Tree :=
  match t.child? "declarator" with
  | none => none
  | some d =>
    if d.kind = "pointer_declarator" then (d.ofKind? "function_declarator").bind namedBy?
    else namedBy? d

/-- What a definition with a name is. -/
def named (call : CallReader) (s : Source) (c : Cursor) (name : Text) :
    Except ReadFault (Symbol × Definition) := do
  let doc ← Comment.before s c
  let calls ← callsIn call "call_expression" s c.tree
  return (.function name, ⟨s.place c.tree, doc, calls, none, none⟩)

/-- Reads a definition; without a name there is none. -/
def definition : DefinitionReader := fun s c =>
  match name? c.tree with
  | none => .ok none
  | some nameNode => match s.text nameNode with
    | .error e => .error e
    | .ok name => if name.isEmpty then .ok none else (named call s c name).map some

end C

def c : Language :=
  { name := "c"
    title := "CProcessor"
    extensions := [".c", ".h"]
    definitionKinds := ["function_definition"]
    callKinds := ["call_expression"]
    definition := C.definition
    call := C.call }

end CallAtlas.Language
