import CallAtlas.Json.Reader
import CallAtlas.Json.Writer
import CallAtlas.Value.Printed

/-! # Values in documents

A record is written as an object with a field that names its kind, and a path as its text. When a
document is read, an object that names a registered kind becomes a record, and texts become paths
where a path is declared. -/

namespace CallAtlas.Value.Document

/-- The field that names the kind of a record. -/
def kindKey : Text := "__class__"

/-! ## Writing -/

/-- Why a value cannot be written. -/
inductive WriteError where
  | unsupported
  | missingAttribute
  /-- A text holds half of a pair, which cannot be written. -/
  | halfInText
  /-- An integer has too many digits. -/
  | tooLong
  deriving DecidableEq, Repr

/-- A text that can be written. -/
def writable (t : Text) : Except WriteError Text :=
  if t.hasHalf then .error .halfInText else .ok t

/-- An integer that can be written. -/
def shortEnough (n : Int) : Except WriteError Int :=
  if Text.digitLimit < (Text.numeral n.natAbs).length then .error .tooLong else .ok n

/-- Whether all fields of a record are set that its kind has. -/
def isComplete (c : Catalog) (kind : Text) (fields : List (Text × Value)) : Bool :=
  match (c.find? kind).bind Kind.fields with
  | some declared => declared.all fun f => fields.any fun g => g.1 == f.name
  | none => true

/-- The text of a key. -/
def keyText : Value → Except WriteError Text
  | .text s => writable s
  | .float x => .ok (.ofChars (Json.number x))
  | .bool b => .ok (if b then "true" else "false")
  | .null => .ok "null"
  | .int n => (shortEnough n).map Text.ofInt
  | _ => .error .unsupported

/-- An object that names a kind. -/
def tagged (kind : Text) (fields : List (Text × Json)) : Json :=
  .obj (Json.put kindKey (.str kind) fields)

mutual
/-- The document of a value, given those of kinds. -/
def encode (c : Catalog) (ofKind : Text → Except WriteError Json) : Value → Except WriteError Json
  | .null => .ok .null
  | .bool b => .ok (.bool b)
  | .int n => (shortEnough n).map .int
  | .float x => .ok (.float x)
  | .text s => (writable s).map .str
  | .path p => (writable p.toText).map .str
  | .list items => (encodeItems c ofKind items).map .arr
  | .tuple items => (encodeItems c ofKind items).map .arr
  | .table entries => (encodeEntries c ofKind entries).map .obj
  | .record k fields =>
    if isComplete c k fields then
      (encodeFields c ofKind fields).map (tagged k)
    else .error .missingAttribute
  | .kind name => ofKind name
  | _ => .error .unsupported
def encodeItems (c : Catalog) (ofKind : Text → Except WriteError Json) :
    List Value → Except WriteError (List Json)
  | [] => .ok []
  | v :: vs => do
    let j ← encode c ofKind v
    let js ← encodeItems c ofKind vs
    return j :: js
def encodeEntries (c : Catalog) (ofKind : Text → Except WriteError Json) :
    List (Value × Value) → Except WriteError (List (Text × Json))
  | [] => .ok []
  | (k, v) :: rest => do
    let key ← keyText k
    let j ← encode c ofKind v
    let js ← encodeEntries c ofKind rest
    return (key, j) :: js
def encodeFields (c : Catalog) (ofKind : Text → Except WriteError Json) :
    List (Text × Value) → Except WriteError (List (Text × Json))
  | [] => .ok []
  | (k, v) :: rest => do
    let j ← encode c ofKind v
    let js ← encodeFields c ofKind rest
    return (k, j) :: js
end

/-- The document of a kind: the fields that it has by itself, none of which is a kind. -/
def kindDocument (c : Catalog) (name : Text) : Except WriteError Json :=
  match c.find? name with
  | none => .error .unsupported
  | some k => match k.fields with
    | none => .error .unsupported
    | some fs => match sharedFields? fs with
      | none => .error .missingAttribute
      | some fields =>
        (encodeFields c (fun _ => .error .unsupported) fields).map (tagged "type")

/-- The text of a value as a document. -/
def write (c : Catalog) (v : Value) : Except WriteError String :=
  (encode c (kindDocument c) v).map Json.render

/-! ## Reading -/

/-- Why a document cannot be read. -/
inductive LoadError where
  | notText
  | malformed
  /-- An integer has too many digits. -/
  | tooLong
  /-- Lists and objects are nested too deeply. -/
  | tooDeep
  /-- The name of a kind is a value that cannot be a key. -/
  | badKindName
  | unregistered (name : Value)
  | badFields

def LoadError.message : LoadError → Text
  | .notText => "bytes that are no text"
  | .malformed => "no document"
  | .tooLong => "an integer with too many digits"
  | .tooDeep => "lists and objects nested too deeply"
  | .badKindName => "a kind cannot be named by such a value"
  | .unregistered v => "Class " ++ v.toText ++ " not registered in JSON_TYPE_REGISTRY."
  | .badFields => "fields that do not fit the kind"

/-- Fields with the text under a key turned into a path. -/
def withPath (name : Text) (fields : List (Text × Value)) : List (Text × Value) :=
  fields.map fun f => match f.2 with
    | .text s => if f.1 = name then (f.1, .path (.ofText s)) else f
    | _ => f

/-- Fields with the texts under all keys that are declared as paths turned into paths. -/
def withPaths (declared : List Field) (fields : List (Text × Value)) : List (Text × Value) :=
  (declared.filter Field.isPath).foldl (fun fs f => withPath f.name fs) fields

/-- The value of an object that names a kind. -/
def ofNamed (c : Catalog) (strict : Bool) (name : Value) (rest : List (Text × Value)) :
    Except LoadError Value :=
  let found := match name with
    | .text s => c.registered? s
    | _ => none
  match found with
  | none => if strict then .error (.unregistered name) else .ok (ofFields rest)
  | some k => match k.fields with
    | none => .ok (ofFields rest)
    | some declared => match make? k.name declared (withPaths declared rest) with
      | some v => .ok v
      | none => .error .badFields

/-- The value of an object. -/
def ofObject (c : Catalog) (strict : Bool) (fields : List (Text × Value)) :
    Except LoadError Value :=
  let fields := withPath "file_path" (Json.dedup fields)
  match fields.lookup kindKey with
  | none => .ok (ofFields fields)
  | some name =>
    if name.isKey then ofNamed c strict name (fields.filter fun f => f.1 ≠ kindKey)
    else .error .badKindName

/-- How values are put together from a document. -/
def builder (c : Catalog) (strict : Bool) : Json.Builder LoadError Value :=
  ⟨.null, .bool, .int, .float, .text, .list, ofObject c strict⟩

/-- Reads a value from the text of a document within limits. -/
def read (limits : Json.Limits) (c : Catalog) (strict : Bool) (s : String) :
    Except LoadError Value :=
  match Json.read limits (builder c strict) s.toList with
  | .ok v => .ok v
  | .error .malformed => .error .malformed
  | .error .tooLong => .error .tooLong
  | .error .tooDeep => .error .tooDeep
  | .error (.refused e) => .error e

/-- The limits of documents that are loaded: only integers have one. -/
def loadLimits : Json.Limits := ⟨some Text.digitLimit, none⟩

/-- Reads a value from the bytes of a document. -/
def load (c : Catalog) (strict : Bool) (data : ByteArray) : Except LoadError Value :=
  match String.fromUTF8? data with
  | none => .error .notText
  | some s => read loadLimits c strict s

end CallAtlas.Value.Document
