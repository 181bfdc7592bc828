import CallAtlas.Snapshot

/-! # Snapshots as tables

Tables of symbols, places, definitions and references, and a table that links a definition with
each reference inside it. Rows name other rows by their ids, which are their positions. A row is
added only where no equal row is found. Docs, notes and source texts have no column. -/

namespace CallAtlas.Store

/-! ## Rows -/

/-- How a row tells functions and methods apart. -/
inductive SymbolType where
  | function
  | method
  deriving DecidableEq, Repr

/-- A symbol as a row. -/
structure SymbolRow where
  name : Text
  className : Option Text
  type : SymbolType
  deriving DecidableEq, Repr

namespace SymbolRow

def ofSymbol : Symbol → SymbolRow
  | .function name => ⟨name, none, .function⟩
  | .method name className => ⟨name, className, .method⟩

def toSymbol (r : SymbolRow) : Symbol :=
  match r.type with
  | .function => .function r.name
  | .method => .method r.name r.className

/-- Whether two rows have one name and one class. A class that is not known equals no other. -/
def clashes (r t : SymbolRow) : Bool :=
  decide (r.name = t.name) && decide (r.className = t.className) && r.className.isSome

end SymbolRow

/-- A place as a row. -/
structure LocationRow where
  file : Text
  startLine : Int
  startColumn : Int
  endLine : Int
  endColumn : Int
  startByte : Int
  endByte : Int
  deriving DecidableEq, Repr

namespace LocationRow

def ofLocation (l : Location) : LocationRow :=
  ⟨l.file.toText, l.startLine, l.startColumn, l.endLine, l.endColumn, l.startByte, l.endByte⟩

def toLocation (r : LocationRow) : Location :=
  ⟨.ofText r.file, r.startLine, r.startColumn, r.endLine, r.endColumn, r.startByte, r.endByte⟩

end LocationRow

/-- A definition or a reference as a row: the ids of its symbol and its place. -/
structure SiteRow where
  symbol : Nat
  location : Nat
  deriving DecidableEq, Repr

/-- The two sides of a call: the definition that makes it and the reference that is made. -/
inductive Side where
  | definition
  | reference
  deriving DecidableEq, Repr

def Side.other : Side → Side
  | .definition => .reference
  | .reference => .definition

/-- A definition and a reference inside it. -/
structure Link (α : Type) where
  definition : α
  reference : α
  deriving DecidableEq, Repr

namespace Link

variable {α : Type}

/-- What stands on a side. -/
def on (k : Link α) : Side → α
  | .definition => k.definition
  | .reference => k.reference

/-- The link of what stands on a side with what stands on the other. -/
def of (side : Side) (a b : α) : Link α :=
  match side with
  | .definition => ⟨a, b⟩
  | .reference => ⟨b, a⟩

end Link

/-- The tables of a snapshot. -/
structure Database where
  /-- The kind of index that was saved, in one row. -/
  kinds : List Text
  symbols : List SymbolRow
  locations : List LocationRow
  definitions : List SiteRow
  references : List SiteRow
  /-- Definitions and references by their ids. -/
  links : List (Link Nat)
  deriving DecidableEq, Repr

/-- Why a row is not found or not added. -/
inductive RowError where
  /-- More than one row meets a query that expects one. -/
  | severalRows
  /-- A row that may stand in the table once would stand there twice. -/
  | notUnique
  deriving DecidableEq, Repr

/-- The ids of the rows that are equal to one. -/
def idsOf {α : Type} [DecidableEq α] (rows : List α) (row : α) : List Nat :=
  (rows.zipIdx.filter fun e => decide (e.1 = row)).map Prod.snd

/-- A table with a row, which is added at the end if it is not there, and the id of the row. -/
def getOrAdd {α : Type} [DecidableEq α] (clashes : α → α → Bool) (rows : List α) (row : α) :
    Except RowError (List α × Nat) :=
  match idsOf rows row with
  | [] =>
    if rows.any (clashes row) then .error .notUnique else .ok (rows ++ [row], rows.length)
  | [id] => .ok (rows, id)
  | _ => .error .severalRows

/-- One of the tables of a database. -/
structure Table (α : Type) where
  rows : Database → List α
  put : List α → Database → Database
  clashes : α → α → Bool

namespace Database

/-- The tables without rows. -/
def empty : Database := ⟨[], [], [], [], [], []⟩

instance : Inhabited Database := ⟨empty⟩

def symbolTable : Table SymbolRow :=
  ⟨symbols, fun rows db => { db with symbols := rows }, SymbolRow.clashes⟩

def locationTable : Table LocationRow :=
  ⟨locations, fun rows db => { db with locations := rows }, fun _ _ => false⟩

/-- The rows of the records on a side. -/
def sites (db : Database) : Side → List SiteRow
  | .definition => db.definitions
  | .reference => db.references

def putSites (side : Side) (rows : List SiteRow) (db : Database) : Database :=
  match side with
  | .definition => { db with definitions := rows }
  | .reference => { db with references := rows }

def siteTable (side : Side) : Table SiteRow :=
  ⟨fun db => db.sites side, putSites side, fun _ _ => false⟩

/-! ## Writing -/

/-- A change of tables that may be refused. -/
abbrev Writing := StateT Database (Except RowError)

/-- The id of a row, which is added if it is not there. -/
def idOf {α : Type} [DecidableEq α] (t : Table α) (row : α) : Writing Nat := do
  let db ← get
  let (rows, id) ← getOrAdd t.clashes (t.rows db) row
  set (t.put rows db)
  return id

def symbolId (s : Symbol) : Writing Nat := idOf symbolTable (.ofSymbol s)

/-- The id of the row of a symbol at a place. The row of the place comes first. -/
def siteId (side : Side) (symbol : Nat) (l : Location) : Writing Nat := do
  let location ← idOf locationTable (.ofLocation l)
  idOf (siteTable side) ⟨symbol, location⟩

/-- Links a record on a side with one on the other. -/
def link (side : Side) (id other : Nat) : Writing Unit :=
  modify fun db => { db with links := addIfAbsent db.links (.of side id other) }

/-- Adds what stands on the other side of a record. -/
def addPartner (side : Side) (id : Nat) (partner : Site) : Writing Unit := do
  let symbol ← symbolId partner.symbol
  let other ← siteId side.other symbol partner.location
  link side id other

/-- Adds a record of a symbol on a side with its partners on the other. -/
def addRecord (side : Side) (symbol : Nat) (l : Location) (partners : List Site) :
    Writing Unit := do
  let id ← siteId side symbol l
  partners.forM (addPartner side id)

/-- Adds a definition of a symbol with its calls. -/
def addDefinition (symbol : Nat) (d : Definition) : Writing Unit :=
  addRecord .definition symbol d.location d.calls

/-- Adds a reference to a symbol with its callers. -/
def addReference (symbol : Nat) (r : Reference) : Writing Unit :=
  addRecord .reference symbol r.location r.callers

/-- Adds a symbol with its definitions and then its references. -/
def addEntry (e : Symbol × Info) : Writing Unit := do
  let symbol ← symbolId e.1
  e.2.definitions.forM (addDefinition symbol)
  e.2.references.forM (addReference symbol)

/-- The tables of a snapshot. -/
def ofSnapshot (s : Snapshot) : Except RowError Database :=
  (s.entries.forM addEntry).run { empty with kinds := [s.kind] } |>.map Prod.snd

/-! ## Reading -/

/-- The symbol and the place that a row names. -/
def site? (db : Database) (r : SiteRow) : Option Site := do
  let symbol ← db.symbols[r.symbol]?
  let location ← db.locations[r.location]?
  return ⟨symbol.toSymbol, location.toLocation⟩

/-- What stands on the other side of a record. -/
def partners? (db : Database) (side : Side) (id : Nat) : Option (List Site) :=
  (db.links.filter fun k => decide (k.on side = id)).mapM fun k => do
    let row ← (db.sites side.other)[k.on side.other]?
    db.site? row

/-- The records of a symbol on a side, each as its place and its partners. -/
def records? (db : Database) (side : Side) (symbol : Nat) :
    Option (List (Location × List Site)) :=
  ((db.sites side).zipIdx.filter fun e => decide (e.1.symbol = symbol)).mapM fun e => do
    let site ← db.site? e.1
    let partners ← db.partners? side e.2
    return (site.location, partners)

/-- What the tables tell about the symbol of an id. -/
def info? (db : Database) (symbol : Nat) : Option Info := do
  let definitions ← db.records? .definition symbol
  let references ← db.records? .reference symbol
  return ⟨definitions.map fun r => ⟨r.1, none, r.2, none, none⟩,
    references.map fun r => ⟨r.1, r.2⟩⟩

/-- The one kind that the tables tell. -/
def kind? (db : Database) : Option Text :=
  match db.kinds with
  | [kind] => some kind
  | _ => none

/-- The snapshot that tables describe. -/
def toSnapshot? (db : Database) : Option Snapshot := do
  let kind ← db.kind?
  let entries ← db.symbols.zipIdx.mapM fun e => do
    let info ← db.info? e.2
    return (e.1.toSymbol, info)
  return ⟨kind, entries, none⟩

end Database

end CallAtlas.Store
