import CallAtlas.Definition
import CallAtlas.Source.Text
import CallAtlas.Text.Quoted

/-! # Languages

A language says which nodes of a tree define and call functions, and reads definitions and calls
off such nodes. -/

namespace CallAtlas

/-- Why a node cannot be read. -/
inductive ReadFault where
  /-- The bytes of a node are no text. -/
  | notText
  /-- The language does not say how to read definitions. -/
  | noDefinitionReader
  /-- The language does not say how to read calls. -/
  | noCallReader
  /-- A node of another kind was expected. -/
  | wrongKind (expected got : String)
  deriving DecidableEq, Repr

def ReadFault.message : ReadFault → Text
  | .notText => "bytes that are no text"
  | .noDefinitionReader => "BaseLanguageProcessor must implement handle_definition method."
  | .noCallReader => "BaseLanguageProcessor must implement handle_reference method."
  | .wrongKind expected got => "Expected " ++ expected ++ ", got " ++ got

/-- The text that a node covers. -/
def Source.text (s : Source) (t : Tree) : Except ReadFault Text :=
  match s.text? t with
  | some text => .ok text
  | none => .error .notText

/-- Reads a call off a node, if it is one of the calls that are recorded. -/
abbrev CallReader := Source → Tree → Except ReadFault (Option (Symbol × Reference))

/-- Reads a definition off a node, if it is one of the definitions that are recorded. -/
abbrev DefinitionReader := Source → Cursor → Except ReadFault (Option (Symbol × Definition))

/-- A language: its name, how it is called in print, the endings of its files, the kinds of nodes
that define and call, and how they are read. -/
structure Language where
  name : Text
  title : Text
  extensions : List Text
  definitionKinds : List String
  callKinds : List String
  definition : DefinitionReader
  call : CallReader

namespace Language

/-- The printed form of a language. -/
def toText (l : Language) : Text :=
  l.title ++ "(name=" ++ l.name ++ ", extensions=["
    ++ Text.join ", " (l.extensions.map Text.quoted) ++ "])"

/-- The nodes that define, kind by kind. -/
def definitionNodes (l : Language) (root : Tree) : List Cursor :=
  l.definitionKinds.flatMap fun k => Cursor.ofKind k root

/-- The nodes that call, kind by kind. -/
def callNodes (l : Language) (root : Tree) : List Tree :=
  l.callKinds.flatMap fun k => Tree.ofKind k root

/-- The calls of one list of nodes. -/
def sitesOf (call : CallReader) (s : Source) : List Tree → Except ReadFault (List Site)
  | [] => .ok []
  | t :: ts => match call s t with
    | .error e => .error e
    | .ok found => match sitesOf call s ts with
      | .error e => .error e
      | .ok rest => .ok ((found.map fun c => Site.mk c.1 c.2.location).toList ++ rest)

/-- The calls in the body of a definition. A definition without a body has none. -/
def callsIn (call : CallReader) (kind : String) (s : Source) (t : Tree) :
    Except ReadFault (List Site) :=
  match t.child? "body" with
  | none => .ok []
  | some body => sitesOf call s (body.ofKind kind)

/-- A language of which only the kinds of nodes are known. -/
def bare : Language :=
  { name := "base"
    title := "BaseLanguageProcessor"
    extensions := []
    definitionKinds := ["function_definition", "method_definition"]
    callKinds := ["call", "method_call"]
    definition := fun _ _ => .error .noDefinitionReader
    call := fun _ _ => .error .noCallReader }

end Language

end CallAtlas
