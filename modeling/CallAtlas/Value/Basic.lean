import CallAtlas.Decimal.Binary64
import CallAtlas.Location
import CallAtlas.Text.Basic

/-! # Values

Values of many types, among them records of kinds that a catalog lists. -/

namespace CallAtlas

/-- A value. Dictionaries and sets hold no key or item twice; a record has the fields of its kind
that are set, in their order. -/
inductive Value where
  | null
  | bool (b : Bool)
  | int (n : Int)
  | float (x : Decimal.Binary64)
  | text (s : Text)
  | bytes (data : List UInt8)
  | path (p : Path)
  | location (l : Location)
  | list (items : List Value)
  | tuple (items : List Value)
  | set (items : List Value)
  | table (entries : List (Value × Value))
  | record (kind : Text) (fields : List (Text × Value))
  /-- An object of a kind without fields. -/
  | thing (kind : Text)
  /-- A kind itself. -/
  | kind (name : Text)
  deriving Repr

instance : Inhabited Value := ⟨.null⟩

namespace Value

/-! ## Sameness -/

/-- The integer that a value stands for, if it is one; truth values are one and zero. -/
def integer? : Value → Option Int
  | .bool b => some (if b then 1 else 0)
  | .int n => some n
  | _ => none

/-- Whether two numbers are the same, whatever their types. -/
def sameNumber (a b : Value) : Bool :=
  match integer? a, integer? b, a, b with
  | some m, some n, _, _ => m == n
  | some m, none, _, .float y => y.eqInt m
  | none, some n, .float x, _ => x.eqInt n
  | none, none, .float x, .float y => x.sameValue y
  | _, _, _, _ => false

mutual
/-- Whether two values are the same key. Lists, dictionaries, sets and records are never keys. -/
def same : Value → Value → Bool
  | .null, .null => true
  | .text a, .text b => a == b
  | .bytes a, .bytes b => a == b
  | .path a, .path b => a == b
  | .location a, .location b => a == b
  | .tuple as, .tuple bs => sameAll as bs
  | .kind a, .kind b => a == b
  | a, b => sameNumber a b
def sameAll : List Value → List Value → Bool
  | [], [] => true
  | a :: as, b :: bs => same a b && sameAll as bs
  | _, _ => false
end

mutual
/-- Whether a value can be a key of a dictionary or an item of a set. -/
def isKey : Value → Bool
  | .list _ | .set _ | .table _ | .record _ _ => false
  | .tuple items => areKeys items
  | _ => true
def areKeys : List Value → Bool
  | [] => true
  | v :: vs => isKey v && areKeys vs
end

/-- Sets the value of a key, keeping its place if it has one. -/
def putEntry (key value : Value) : List (Value × Value) → List (Value × Value)
  | [] => [(key, value)]
  | (k, v) :: rest => if same k key then (k, value) :: rest else (k, v) :: putEntry key value rest

/-- Entries with one value for each key; a later value replaces an earlier one. -/
def mergeEntries (entries : List (Value × Value)) : List (Value × Value) :=
  entries.foldl (fun acc e => putEntry e.1 e.2 acc) []

/-- The dictionary of entries, if all their keys can be keys. -/
def ofEntries? (entries : List (Value × Value)) : Option Value :=
  if areKeys (entries.map Prod.fst) then some (.table (mergeEntries entries)) else none

/-- The set of items, if all of them can be items of a set. -/
def ofItems? (items : List Value) : Option Value :=
  if areKeys items then
    some (.set (items.foldl (fun acc v => if acc.any (same v) then acc else acc ++ [v]) []))
  else none

/-- The dictionary whose keys are texts. -/
def ofFields (fields : List (Text × Value)) : Value :=
  .table (fields.map fun f => (.text f.1, f.2))

/-! ## Kinds of records -/

/-- What a field is if nothing is said. -/
inductive Default where
  | required
  /-- A value that belongs to the kind as well. -/
  | shared (v : Value)
  /-- A value that is made for every record. -/
  | fresh (v : Value)

/-- What a field is declared to hold. -/
inductive Annotation where
  /-- The type of paths. -/
  | path
  /-- A text that names the type of paths. -/
  | pathText
  | other
  deriving DecidableEq, Repr

/-- A field of a kind of records. -/
structure Field where
  name : Text
  annotation : Annotation
  default : Default
  /-- Whether the field can be given to a new record. Otherwise it has its default there, or is not
  set if it has none. -/
  init : Bool

/-- Whether a field is declared to hold a path, by the type itself. -/
def Field.isPath (f : Field) : Bool := f.annotation == .path

/-- A kind of objects. Only registered kinds are found by name when documents are read. -/
structure Kind where
  name : Text
  /-- The fields of a kind of records; other kinds have none. -/
  fields : Option (List Field)
  registered : Bool

/-- The kinds that are known. -/
abbrev Catalog := List Kind

def Catalog.find? (c : Catalog) (name : Text) : Option Kind :=
  List.find? (fun k => k.name == name) c

/-- The registered kind of a name. -/
def Catalog.registered? (c : Catalog) (name : Text) : Option Kind :=
  List.find? (fun k => k.registered && k.name == name) c

def Default.value? : Default → Option Value
  | .required => none
  | .shared v => some v
  | .fresh v => some v

/-- The value of a field of a new record. -/
def Field.value? (given : List (Text × Value)) (f : Field) : Option Value :=
  (given.lookup f.name).or f.default.value?

/-- The fields of a new record, unless one that has to be given is missing. -/
def fieldValues? (given : List (Text × Value)) : List Field → Option (List (Text × Value))
  | [] => some []
  | f :: fs => match f.value? given, fieldValues? given fs with
    | some v, some rest => some ((f.name, v) :: rest)
    | none, some rest => if f.init then none else some rest
    | _, none => none

/-- A record with the given fields, unless one cannot be given or one that has to be is missing. -/
def make? (name : Text) (fields : List Field) (given : List (Text × Value)) : Option Value :=
  if given.all fun g => fields.any fun f => f.init && f.name == g.1 then
    (fieldValues? given fields).map (.record name)
  else none

/-- An object of a kind with the given fields; a kind that is not one of records takes none. -/
def Kind.make? (k : Kind) (given : List (Text × Value)) : Option Value :=
  match k.fields with
  | some fields => Value.make? k.name fields given
  | none => if given.isEmpty then some (.thing k.name) else none

/-- The fields that a kind has by itself. -/
def sharedFields? : List Field → Option (List (Text × Value))
  | [] => some []
  | f :: fs => match f.default, sharedFields? fs with
    | .shared v, some rest => some ((f.name, v) :: rest)
    | _, _ => none

/-! ## Values of the domain -/

/-- A location as a dictionary, with the text of its path. -/
def ofLocation (l : Location) (file : Text) : Value :=
  ofFields [("file_path", .text file),
    ("start_lineno", .int l.startLine), ("start_col", .int l.startColumn),
    ("end_lineno", .int l.endLine), ("end_col", .int l.endColumn),
    ("start_byte", .int l.startByte), ("end_byte", .int l.endByte)]

end Value

end CallAtlas
