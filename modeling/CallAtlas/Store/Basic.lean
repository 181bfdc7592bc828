import CallAtlas.Files
import CallAtlas.Index.Basic
import CallAtlas.Store.Document

/-! # Keeping an index in a file -/

namespace CallAtlas.Store

/-- How an index is kept: as a document or as a database. -/
inductive Format where
  | document
  | database
  deriving DecidableEq, Repr

/-- The printed form of a format. -/
def Format.describe : Format → Text
  | .document => "SingleJsonFilePersistStrategy()"
  | .database => "SqlitePersistStrategy()"

/-- Why an index cannot be saved or loaded. -/
inductive Error where
  | isDirectory (path : Path)
  | noParent (parent : Path)
  | parentNotDirectory (parent : Path)
  | unwritable (path : Path)
  | noFile (path : Path)
  | notRegular (path : Path)
  | unreadable (path : Path)
  | unsavedRows (cause : RowError)
  | brokenDatabase (path : Path)
  | file (cause : FileError)
  | refused (cause : IndexError)
  deriving DecidableEq, Repr

def Error.message : Error → Text
  | .isDirectory p => "Specified path is a directory, not a file: " ++ p.toText
  | .noParent p =>
    "Parent directory does not exist: " ++ p.toText ++ ". Please create the directory first."
  | .parentNotDirectory p => "Parent path is not a directory: " ++ p.toText
  | .unwritable p => "Error saving index data to file " ++ p.toText
  | .noFile p => "Index file does not exist: " ++ p.toText
  | .notRegular p => "Path exists but is not a regular file: " ++ p.toText
  | .unreadable p => "Error loading index file " ++ p.toText
  | .unsavedRows .severalRows => "more than one row is found where one was expected"
  | .unsavedRows .notUnique => "a symbol of this name and class is there already"
  | .brokenDatabase p => "cannot load the database " ++ p.toText
  | .file _ => "the file system refused"
  | .refused cause => cause.message

/-! ## Documents -/

/-- Writes a snapshot as a document into a directory that is there. A snapshot with half of a pair
in a text is refused before anything is written. -/
def saveDocument (fs : Files) (p : Path) (s : Snapshot) : Except Error Files :=
  if fs.isDirectory p then .error (.isDirectory p)
  else if !fs.pathExists p.parent then .error (.noParent p.parent)
  else if !fs.isDirectory p.parent then .error (.parentNotDirectory p.parent)
  else match Document.encode? s with
    | none => .error (.unwritable p)
    | some text => match fs.write p (.bytes text.toUTF8) with
      | .ok fs => .ok fs
      | .error _ => .error (.unwritable p)

/-- The snapshot in bytes that are a document. -/
def snapshotOfBytes? [Library] (data : ByteArray) : Option Snapshot :=
  (String.fromUTF8? data).bind (Document.parseWithin Library.limits)

/-- Reads a snapshot from a document. -/
def loadDocument [Library] (fs : Files) (p : Path) : Except Error Snapshot :=
  match fs.at? p with
  | none => .error (.noFile p)
  | some .directory => .error (.isDirectory p)
  | some .device => .error (.notRegular p)
  | some (.regular (.database _)) => .error (.unreadable p)
  | some (.regular (.bytes data)) => match snapshotOfBytes? data with
    | none => .error (.unreadable p)
    | some s => .ok s

/-! ## Databases -/

/-- The file of a database: in a directory it has a fixed name. -/
def databasePath (fs : Files) (p : Path) : Path :=
  if fs.isDirectory p then p.child "index.sqlite" else p

/-- Puts a database in the place of a file, which is kept under another name. -/
def putDatabase (fs : Files) (p : Path) (db : Database) : Except FileError Files := do
  let fs ← if fs.isRegular p then fs.rename p (p.name ++ ".bak") else .ok fs
  fs.write p (.database db)

/-- Writes a snapshot as a database. Missing directories are made. If a row is refused, the tables
are there without rows. -/
def saveDatabase (fs : Files) (p : Path) (s : Snapshot) : Files × Option Error :=
  let p := databasePath fs p
  match Database.ofSnapshot s with
  | .ok db => (fs.within p.parent fun fs => putDatabase fs p db).map id (Option.map .file)
  | .error cause => match fs.within p.parent fun fs => putDatabase fs p .empty with
    | (fs, some e) => (fs, some (.file e))
    | (fs, none) => (fs, some (.unsavedRows cause))

/-- Reads a snapshot from a database. Missing directories and a missing file are made, and then
there is nothing to read. -/
def loadDatabase (fs : Files) (p : Path) : Files × Except Error Snapshot :=
  let p := databasePath fs p
  match fs.makeDirectories p.parent with
  | (fs, some e) => (fs, .error (.file e))
  | (fs, none) => match fs.at? p with
    | some (.regular (.database db)) => match db.toSnapshot? with
      | some s => (fs, .ok s)
      | none => (fs, .error (.brokenDatabase p))
    | none => match fs.write p (.bytes .empty) with
      | .ok fs => (fs, .error (.brokenDatabase p))
      | .error .nullInName => (fs, .error (.file .nullInName))
      | .error .halfInName => (fs, .error (.file .halfInName))
      | .error _ => (fs, .error (.brokenDatabase p))
    | _ => (fs, .error (.brokenDatabase p))

/-! ## Either -/

/-- Saves a snapshot, with the files after the attempt. -/
def save (fs : Files) (f : Format) (p : Path) (s : Snapshot) : Files × Option Error :=
  match f with
  | .document => match saveDocument fs p s with
    | .ok fs => (fs, none)
    | .error e => (fs, some e)
  | .database => saveDatabase fs p s

/-- Loads a snapshot, with the files after the attempt. -/
def load [Library] (fs : Files) (f : Format) (p : Path) : Files × Except Error Snapshot :=
  match f with
  | .document => (fs, loadDocument fs p)
  | .database => loadDatabase fs p

/-- Loads a snapshot into a new index of a kind. -/
def loadIndex [Library] (fs : Files) (f : Format) (p : Path) (kind : IndexKind) :
    Files × Except Error Index :=
  match load fs f p with
  | (fs, .error e) => (fs, .error e)
  | (fs, .ok s) => match (Index.empty kind).load s with
    | .ok ix => (fs, .ok ix)
    | .error e => (fs, .error (.refused e))

end CallAtlas.Store
