import CallAtlas.Language.Basic
import CallAtlas.Text.Blank

/-! # Python

A function inside a class is a method. A call of a name is a call of a function, and a call of an
attribute is a call of a method of an unknown class. The first string of a body is the text that
describes the function. -/

namespace CallAtlas.Language.Python

/-! ## Docstrings -/

/-- A text without a mark of several quotes at both its ends. -/
def unquote? (mark rs : List Rune) : Option (List Rune) :=
  if mark.isPrefixOf rs && mark.isSuffixOf rs then
    some ((rs.drop mark.length).take (rs.length - 2 * mark.length))
  else none

/-- The text inside the quotes of a string; three quotes are tried before one. -/
def unquote (rs : List Rune) : List Rune :=
  let marks : List (List Rune) := [['"', '"', '"'], ['\x27', '\x27', '\x27'], ['"'], ['\x27']]
  (marks.findSome? fun mark => unquote? mark rs).getD rs

/-- The text of a docstring. -/
def tidy (raw : Text) : Text := .ofRunes (Text.trim (unquote raw.runes))

/-- The kinds of nodes that may stand before a docstring. -/
def layoutKinds : List String := [":", "newline", "indent", "dedent"]

/-- The string that describes a function, sought among the nodes of its body. -/
def docNode? : List Tree → Option Tree
  | [] => none
  | t :: ts =>
    if t.kind = "expression_statement" then match t.ofKind? "string" with
      | some string => some string
      | none => docNode? ts
    else if t.kind ∈ layoutKinds then docNode? ts
    else none

/-- The text that describes a function. -/
def doc (s : Source) (t : Tree) : Except ReadFault (Option Text) :=
  match (t.child? "body").bind fun body => docNode? body.children with
  | none => .ok none
  | some string => (s.text string).map fun raw => some (tidy raw)

/-! ## Calls -/

/-- The called symbol and the node that names it. -/
def callee? (t : Tree) : Option ((Text → Symbol) × Tree) :=
  match t.child? "function" with
  | none => none
  | some f =>
    if f.kind = "identifier" then some (.function, f)
    else if f.kind = "attribute" then
      (f.children.reverse.find? fun c => c.kind == "identifier").map fun c =>
        ((Symbol.method · none), c)
    else none

/-- Reads a call; it stands where the whole call expression stands. -/
def call : CallReader := fun s t =>
  match callee? t with
  | none => .ok none
  | some (symbol, name) => (s.text name).map fun n => some (symbol n, .bare (s.place t))

/-! ## Definitions -/

/-- Whether a node stands inside a class. -/
def inClass (c : Cursor) : Bool := c.above.any fun t => t.kind == "class_definition"

/-- The node that names the nearest class with a name around a node. -/
def className? (c : Cursor) : Option Tree :=
  c.above.findSome? fun t => if t.kind = "class_definition" then t.child? "name" else none

/-- The symbol that a definition defines. -/
def symbol (s : Source) (c : Cursor) (name : Text) : Except ReadFault Symbol :=
  if inClass c then match className? c with
    | none => .ok (.method name none)
    | some t => (s.text t).map fun n => .method name (some n)
  else .ok (.function name)

/-- The node that a definition covers: its decorators belong to it. -/
def extent (c : Cursor) : Tree :=
  match c.above with
  | t :: _ => if t.kind = "decorated_definition" then t else c.tree
  | [] => c.tree

/-- Reads a definition. -/
def definition : DefinitionReader := fun s c =>
  match c.tree.child? "name" with
  | none => .ok none
  | some nameNode => do
    let name ← s.text nameNode
    let doc ← doc s c.tree
    let calls ← callsIn call "call" s c.tree
    let symbol ← symbol s c name
    return some (symbol, ⟨s.place (extent c), doc, calls, none, none⟩)

end Python

def python : Language :=
  { name := "python"
    title := "PythonProcessor"
    extensions := [".py"]
    definitionKinds := ["function_definition"]
    callKinds := ["call"]
    definition := Python.definition
    call := Python.call }

end CallAtlas.Language
