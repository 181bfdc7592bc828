import CallAtlas.Json.Basic
import CallAtlas.Snapshot
import CallAtlas.Value.Normal

/-! # Comparing snapshots

Two snapshots are compared by their normal forms, so that the order of lists does not count.
Differences are told with the way to where they are. -/

namespace CallAtlas.Compare

/-! ## Snapshots as values -/

def ofText : Option Text → Value
  | none => .null
  | some s => .text s

def ofSymbol : Symbol → Value
  | .function n => .ofFields [("type", .text "function"), ("name", .text n)]
  | .method n c => .ofFields [("type", .text "method"), ("name", .text n), ("class_name", ofText c)]

/-- A symbol at a place, which has a name of its own. -/
def ofSite (placeName : Text) (s : Site) : Value :=
  .ofFields [("symbol", ofSymbol s.symbol),
    (placeName, .ofFields [("location", .location s.location)])]

def ofNote : Option Note → Value
  | none => .null
  | some n => .ofFields [("description", .text n.description),
      ("potential_vulnerabilities", .text n.vulnerabilities), ("control_flow", .text n.controlFlow)]

def ofDefinition (d : Definition) : Value :=
  .ofFields [("location", .location d.location), ("doc", ofText d.doc),
    ("calls", .list (d.calls.map (ofSite "reference"))), ("llm_note", ofNote d.note),
    ("source_code", ofText d.source)]

def ofReference (r : Reference) : Value :=
  .ofFields [("location", .location r.location),
    ("called_by", .list (r.callers.map (ofSite "definition")))]

def ofEntry (e : Symbol × Info) : Value :=
  .ofFields [("symbol", ofSymbol e.1),
    ("info", .ofFields [("definitions", .list (e.2.definitions.map ofDefinition)),
      ("references", .list (e.2.references.map ofReference))])]

mutual
/-- A document as a value. -/
def ofDocument : Json → Value
  | .null => .null
  | .bool b => .bool b
  | .int n => .int n
  | .float x => .float x
  | .str s => .text s
  | .arr js => .list (ofDocuments js)
  | .obj fields => .table (ofFieldDocuments fields)
def ofDocuments : List Json → List Value
  | [] => []
  | j :: js => ofDocument j :: ofDocuments js
def ofFieldDocuments : List (Text × Json) → List (Value × Value)
  | [] => []
  | (k, j) :: js => (.text k, ofDocument j) :: ofFieldDocuments js
end

def ofSnapshot (s : Snapshot) : Value :=
  .ofFields [("type", .text s.kind), ("data", .list (s.entries.map ofEntry)),
    ("metadata", (s.metadata.map ofDocument).getD .null)]

/-! ## Order -/

/-- The value of a key of a dictionary. -/
def fieldOf (name : Text) : Value → Value
  | .table entries => ((entries.find? fun e => Value.same e.1 (.text name)).map Prod.snd).getD .null
  | _ => .null

/-- Changes the value of a key of a dictionary. -/
def onField (name : Text) (f : Value → Value) : Value → Value
  | .table entries =>
    .table (entries.map fun e => if Value.same e.1 (.text name) then (e.1, f e.2) else e)
  | v => v

def textOf : Value → Text
  | .text s => s
  | _ => ""

def numberOf : Value → Int
  | .int n => n
  | _ => 0

/-- Whether a pair of texts does not come after another. -/
def textsBefore (a b : Text × Text) : Bool :=
  if a.1 = b.1 then a.2.le b.2 else a.1.lt b.1

/-- Whether a text with a number does not come after another. -/
def placeBefore (a b : Text × Int) : Bool :=
  if a.1 = b.1 then decide (a.2 ≤ b.2) else a.1.lt b.1

/-- The items of a list in the order of their keys. -/
def sortItems {κ : Type} (before : κ → κ → Bool) (key : Value → κ) : Value → Value
  | .list items =>
    .list (((items.map fun v => (key v, v)).mergeSort fun a b => before a.1 b.1).map Prod.snd)
  | v => v

/-- Changes every item of a list. -/
def onItems (f : Value → Value) : Value → Value
  | .list items => .list (items.map f)
  | v => v

/-- The file and the first line of a record. -/
def placeKey (v : Value) : Text × Int :=
  let l := fieldOf "location" v
  (textOf (fieldOf "file_path" l), numberOf (fieldOf "start_lineno" l))

/-- The name and the printed form of a called symbol. -/
def callKey (v : Value) : Text × Text :=
  let s := fieldOf "symbol" v
  (textOf (fieldOf "name" s), s.toText)

/-- Puts the lists of one entry in order. -/
def orderInfo (v : Value) : Value :=
  let v := onField "definitions" (sortItems placeBefore placeKey) v
  let v := onField "definitions"
    (onItems (onField "calls" (sortItems textsBefore callKey))) v
  onField "references" (sortItems placeBefore placeKey) v

/-- Puts the lists of a snapshot in order: entries by name, records by place, calls by symbol. -/
def order (v : Value) : Value :=
  let name (e : Value) : Text := textOf (fieldOf "name" (fieldOf "symbol" e))
  let v := onField "data" (sortItems Text.le name) v
  onField "data" (onItems (onField "info" orderInfo)) v

/-- The normal form of a snapshot. It has no kinds in it, so only a path can be at fault. -/
def normal (cwd : Path) (s : Snapshot) : Except Value.NormalError Value :=
  (Value.normal [] cwd (ofSnapshot s)).map order

/-! ## Differences -/

/-- The way to a key. -/
def keyWay (way : Text) (key : Value) : Text :=
  if way = "" then key.toText else way ++ "." ++ key.toText

/-- The keys of the first list that the second does not have, as one difference. -/
def keyDifference (way phrase : Text) (as bs : List (Value × Value)) : List Text :=
  match (as.map Prod.fst).filter fun k => !bs.any fun e => Value.same e.1 k with
  | [] => []
  | ks => [way ++ ": " ++ phrase ++ " keys in second object: \x7b"
      ++ Value.commas (ks.map Value.quoted) ++ "\x7d"]

/-- The difference between two values that are neither both dictionaries nor both lists. -/
def leafDifference (way : Text) (a b : Value) : List Text :=
  if a.typeName ≠ b.typeName then
    [way ++ ": Type mismatch: " ++ a.typeName ++ " != " ++ b.typeName]
  else if Value.same a b then []
  else [way ++ ": " ++ a.quoted ++ " != " ++ b.quoted]

mutual
/-- The differences between two values. -/
def differences (way : Text) : Value → Value → List Text
  | .table as, .table bs =>
    keyDifference way "Missing" as bs ++ keyDifference way "Extra" bs as
      ++ entryDifferences way bs as
  | .list as, .list bs =>
    if as.length ≠ bs.length then
      [way ++ ": List length mismatch: " ++ Text.ofNat as.length ++ " != " ++ Text.ofNat bs.length]
    else itemDifferences way 0 bs as
  | a, b => leafDifference way a b
/-- The differences under the keys that two dictionaries share. -/
def entryDifferences (way : Text) (bs : List (Value × Value)) :
    List (Value × Value) → List Text
  | [] => []
  | (k, a) :: rest =>
    (match bs.find? fun e => Value.same e.1 k with
      | some e => differences (keyWay way k) a e.2
      | none => []) ++ entryDifferences way bs rest
/-- The differences between items at the same position. -/
def itemDifferences (way : Text) (i : Nat) : List Value → List Value → List Text
  | b :: bs, a :: as =>
    differences (way ++ "[" ++ Text.ofNat i ++ "]") a b ++ itemDifferences way (i + 1) bs as
  | _, _ => []
end

/-- The differences between two snapshots. -/
def compare (cwd : Path) (a b : Snapshot) : List Text :=
  match normal cwd a, normal cwd b with
  | .ok a, .ok b => differences "" a b
  | .error e, _ => ["Error during comparison: " ++ e.message]
  | _, .error e => ["Error during comparison: " ++ e.message]

/-- The report of a comparison under a heading, if there are differences. -/
def report (heading : Text) (differences : List Text) : Option Text :=
  if differences.isEmpty then none
  else some (heading ++ "\n" ++ Text.join "\n" (differences.map ("  - " ++ ·)))

/-- The heading of a report for which none is given. -/
def defaultHeading : Text := "IndexData objects are not equal"

end CallAtlas.Compare
