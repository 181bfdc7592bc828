import CallAtlas.Json.Reader
import CallAtlas.Json.Writer
import CallAtlas.Library
import CallAtlas.Snapshot

/-! # Snapshots as documents

A snapshot is written as a document in which every field that has its default is left out: empty
lists, absent texts and notes, and the empty texts of a note. A symbol always tells its type. When
a document is read, a field without a default has to be there. -/

namespace CallAtlas.Store.Document

/-! ## Writing -/

/-- The fields that are there. -/
def object (fields : List (Option (Text × Json))) : Json := .obj (fields.filterMap id)

/-- A field that is always there. -/
def always (key : Text) (j : Json) : Option (Text × Json) := some (key, j)

/-- A field that is left out when there is nothing to write. -/
def whenSome {α : Type} (key : Text) (f : α → Json) (a : Option α) : Option (Text × Json) :=
  a.map fun a => (key, f a)

/-- A list that is left out when it is empty. -/
def whenItems {α : Type} (key : Text) (f : α → Json) : List α → Option (Text × Json)
  | [] => none
  | items => some (key, .arr (items.map f))

/-- A text that is left out when it is empty. -/
def whenText (key : Text) (s : Text) : Option (Text × Json) :=
  if s = "" then none else some (key, .str s)

def ofLocation (l : Location) : Json :=
  .obj [("file_path", .str l.file.toText), ("start_lineno", .int l.startLine),
    ("start_col", .int l.startColumn), ("end_lineno", .int l.endLine),
    ("end_col", .int l.endColumn), ("start_byte", .int l.startByte), ("end_byte", .int l.endByte)]

/-- A text or null. -/
def ofText? : Option Text → Json
  | none => .null
  | some s => .str s

def ofSymbol : Symbol → Json
  | .function name => .obj [("name", .str name), ("type", .str "function")]
  | .method name className =>
    .obj [("name", .str name), ("class_name", ofText? className), ("type", .str "method")]

/-- A symbol with the place that `role` names. -/
def ofSite (role : Text) (s : Site) : Json :=
  .obj [("symbol", ofSymbol s.symbol), (role, .obj [("location", ofLocation s.location)])]

def ofNote (n : Note) : Json :=
  object [whenText "description" n.description,
    whenText "potential_vulnerabilities" n.vulnerabilities,
    whenText "control_flow" n.controlFlow]

def ofDefinition (d : Definition) : Json :=
  object [always "location" (ofLocation d.location), whenSome "doc" .str d.doc,
    whenItems "calls" (ofSite "reference") d.calls, whenSome "llm_note" ofNote d.note,
    whenSome "source_code" .str d.source]

def ofReference (r : Reference) : Json :=
  object [always "location" (ofLocation r.location),
    whenItems "called_by" (ofSite "definition") r.callers]

def ofInfo (i : Info) : Json :=
  object [whenItems "definitions" ofDefinition i.definitions,
    whenItems "references" ofReference i.references]

def ofEntry (e : Symbol × Info) : Json :=
  .obj [("symbol", ofSymbol e.1), ("info", ofInfo e.2)]

/-- The document of a snapshot. -/
def ofSnapshot (s : Snapshot) : Json :=
  object [always "type" (.str s.kind), whenItems "data" ofEntry s.entries,
    whenSome "metadata" id s.metadata]

/-! ## Reading -/

variable [Library]

def toInt : Json → Option Int
  | .int n => some n
  | _ => none

def toText : Json → Option Text
  | .str s => some s
  | _ => none

/-- A field that has to be there. -/
def required {α : Type} (key : Text) (f : Json → Option α) (j : Json) : Option α :=
  (j.field? key).bind f

/-- A field that may be absent or null. -/
def optional {α : Type} (key : Text) (f : Json → Option α) (j : Json) : Option (Option α) :=
  match j.field? key with
  | none => some none
  | some .null => some none
  | some v => (f v).map some

/-- Reads every item, and nothing if one cannot be read. -/
def each {α : Type} (f : Json → Option α) : List Json → Option (List α)
  | [] => some []
  | j :: js => match f j, each f js with
    | some a, some as => some (a :: as)
    | _, _ => none

/-- A list that may be absent. -/
def items {α : Type} (key : Text) (f : Json → Option α) (j : Json) : Option (List α) :=
  match j.field? key with
  | none => some []
  | some (.arr js) => each f js
  | some _ => none

/-- A text that is empty if it is absent. -/
def textOrEmpty (key : Text) (j : Json) : Option Text :=
  match j.field? key with
  | none => some ""
  | some v => toText v

def toLocation (j : Json) : Option Location := do
  let file ← required "file_path" toText j
  let startLine ← required "start_lineno" toInt j
  let startColumn ← required "start_col" toInt j
  let endLine ← required "end_lineno" toInt j
  let endColumn ← required "end_col" toInt j
  let startByte ← required "start_byte" toInt j
  let endByte ← required "end_byte" toInt j
  return ⟨.ofText file, startLine, startColumn, endLine, endColumn, startByte, endByte⟩

/-- The class of a method, which may be null. -/
def toClass (j : Json) : Option (Option Text) :=
  match j.field? "class_name" with
  | none => Library.classless
  | some .null => some none
  | some v => (toText v).map some

def toSymbol (j : Json) : Option Symbol := do
  let type ← required "type" toText j
  let name ← required "name" toText j
  if type = "function" then return .function name
  else if type = "method" then return .method name (← toClass j)
  else none

def toSite (role : Text) (j : Json) : Option Site := do
  let symbol ← required "symbol" toSymbol j
  let location ← required role (required "location" toLocation) j
  return ⟨symbol, location⟩

def toNote (j : Json) : Option Note :=
  match j with
  | .obj _ => do
    let description ← textOrEmpty "description" j
    let vulnerabilities ← textOrEmpty "potential_vulnerabilities" j
    let controlFlow ← textOrEmpty "control_flow" j
    return ⟨description, vulnerabilities, controlFlow⟩
  | _ => none

def toDefinition (j : Json) : Option Definition := do
  let location ← required "location" toLocation j
  let doc ← optional "doc" toText j
  let calls ← items "calls" (toSite "reference") j
  let note ← optional "llm_note" toNote j
  let source ← optional "source_code" toText j
  return ⟨location, doc, calls, note, source⟩

def toReference (j : Json) : Option Reference := do
  let location ← required "location" toLocation j
  let callers ← items "called_by" (toSite "definition") j
  return ⟨location, callers⟩

def toInfo (j : Json) : Option Info :=
  match j with
  | .obj _ => do
    let definitions ← items "definitions" toDefinition j
    let references ← items "references" toReference j
    return ⟨definitions, references⟩
  | _ => none

def toEntry (j : Json) : Option (Symbol × Info) := do
  let symbol ← required "symbol" toSymbol j
  let info ← required "info" toInfo j
  return (symbol, info)

/-- An object as it is. -/
def toObject : Json → Option Json
  | .obj fields => some (.obj fields)
  | _ => none

/-- The snapshot that a document describes. -/
def toSnapshot (j : Json) : Option Snapshot := do
  let kind ← required "type" toText j
  let entries ← items "data" toEntry j
  let metadata ← optional "metadata" toObject j
  return ⟨kind, entries, metadata⟩

/-! ## Text -/

/-- The text of a snapshot's document. -/
def render (s : Snapshot) : String := (ofSnapshot s).render

/-- The text of a snapshot's document, if it can be encoded. -/
def encode? (s : Snapshot) : Option String := (ofSnapshot s).encode?

/-- The snapshot that a text describes. -/
def parse (text : String) : Option Snapshot := (Json.parse text).bind toSnapshot

/-- The snapshot that a text describes, if it keeps within limits. -/
def parseWithin (limits : Json.Limits) (text : String) : Option Snapshot :=
  (Json.parseWithin limits text).bind toSnapshot

end CallAtlas.Store.Document
