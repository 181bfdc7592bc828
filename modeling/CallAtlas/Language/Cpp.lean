import CallAtlas.Language.C

/-! # C++

As in C, only calls of a name are recorded. A call stands where the name of the called function
stands. The declarator of a function stands for itself. -/

namespace CallAtlas.Language.Cpp

/-- Reads a call; it stands where the name stands. -/
def call : CallReader := fun s t =>
  match C.callee? t with
  | none => .ok none
  | some name => (s.text name).map fun n => some (.function n, .bare (s.place name))

/-- The place of a call by its name and its arguments: lines and first column are those of the name,
the rest is that of the whole expression. -/
def callPlace (s : Source) (t name : Tree) : Location :=
  { s.place name with
    endColumn := (s.place t).endColumn
    startByte := t.start
    endByte := t.stop }

/-- Reads a call with its arguments; only call expressions are taken. -/
def wholeCall : CallReader := fun s t =>
  if t.kind = "call_expression" then match C.callee? t with
    | none => .ok none
    | some name => (s.text name).map fun n => some (.function n, .bare (callPlace s t name))
  else .error (.wrongKind "call_expression" t.kind)

/-- Reads the definition of a function; only function definitions are taken. -/
def functionDefinition : DefinitionReader := fun s c =>
  if c.tree.kind = "function_definition" then
    match (c.tree.child? "declarator").bind C.namedBy? with
    | none => .ok none
    | some nameNode => match s.text nameNode with
      | .error e => .error e
      | .ok name => (C.named call s c name).map some
  else .error (.wrongKind "function_definition" c.tree.kind)

/-- Reads a definition; nodes that define no function are passed over. -/
def definition : DefinitionReader := fun s c =>
  if c.tree.kind = "function_definition" then functionDefinition s c else .ok none

end Cpp

def cpp : Language :=
  { name := "cpp"
    title := "CppProcessor"
    extensions := [".cpp", ".hpp", ".cc", ".h", ".cxx", ".hxx"]
    definitionKinds := ["function_definition"]
    callKinds := ["call_expression"]
    definition := Cpp.definition
    call := Cpp.call }

end CallAtlas.Language
