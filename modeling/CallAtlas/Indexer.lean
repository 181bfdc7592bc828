import CallAtlas.Indexer.Origin
import CallAtlas.Language.Basic
import CallAtlas.Store.Basic

/-! # Indexing source files

An indexer reads the definitions and calls of one language out of source files into an index. If a
file cannot be read to its end, what was read before stays in the index. An index can also be
loaded. A symbol that was loaded from a document holds the type that the library has given it. -/

namespace CallAtlas

/-- An index with the language of the files that go into it. -/
structure Indexer where
  language : Language
  index : Index
  /-- Whether files are recorded by their paths from the project's directory. -/
  relativePaths : Bool
  /-- What was loaded from a document. -/
  loaded : Origin

/-- Why a file cannot be indexed. -/
inductive IndexingError where
  | unreadable (cause : ReadFault)
  | outside (file project : Path)
  deriving DecidableEq, Repr

def IndexingError.message : IndexingError → Text
  | .unreadable cause => cause.message
  | .outside file project => file.toText ++ " is not below " ++ project.toText

namespace Indexer

/-- The printed form of an indexer. -/
def toText (x : Indexer) : Text :=
  "CodeIndexer(processor=" ++ x.language.toText ++ ", index=" ++ x.index.toText
    ++ ", store_relative_paths=" ++ (if x.relativePaths then "True" else "False") ++ ")"

/-- An indexer with an empty index of a kind. -/
def start (l : Language) (kind : IndexKind) (relativePaths : Bool) : Indexer :=
  ⟨l, .empty kind, relativePaths, .fresh⟩

/-! ## Changing the index -/

/-- Takes over a changed index; what is new in it was not loaded. -/
def adopt (x : Indexer) (ix : Index) : Indexer :=
  { x with index := ix, loaded := x.loaded.forget fun s => !ix.contains s }

/-- Adds a definition. -/
def addDefinition (x : Indexer) (s : Symbol) (d : Definition) : Indexer :=
  { x with index := x.index.addDefinition s d, loaded := x.loaded.own [d.location] }

/-- Adds a reference. -/
def addReference (x : Indexer) (s : Symbol) (r : Reference) : Indexer :=
  { x with
    index := x.index.addReference s r
    loaded := x.loaded.own (r.callers.map Site.location) }

/-- Whether replacing what is known about some symbols makes a symbol a new one: a linked index
forgets them first. -/
def isRenewed (x : Indexer) (replaced : List Symbol) (s : Symbol) : Bool :=
  x.index.kind = .linked && replaced.contains s

/-- Replaces what is known about a symbol. -/
def set (x : Indexer) (s : Symbol) (i : Info) : Indexer :=
  { x with
    index := x.index.set s i
    loaded := (x.loaded.forget (x.isRenewed [s])).own (i.definitions.map Definition.location) }

/-- Merges what is known about several symbols. -/
def update (x : Indexer) (more : OrderedMap Symbol Info) : Indexer :=
  let ix := x.index.update more
  { x with index := ix, loaded := x.loaded.reown ix }

/-- Takes over a snapshot that does not come from a document. -/
def merge (x : Indexer) (data : Snapshot) : Except IndexError Indexer :=
  (x.index.load data).map fun ix =>
    { x with
      index := ix
      loaded := (x.loaded.forget (x.isRenewed (data.entries.map Prod.fst))).reown ix }

/-- The definition at a place, with the indexer after the search. -/
def find (x : Indexer) (l : Location) : Indexer × Option (Symbol × Definition) :=
  let (ix, found) := x.index.find l
  match x.index.staleOwner? l with
  | none => (x, found)
  | some s =>
    let loaded := if x.index.contains s then x.loaded else x.loaded.restore s l
    ({ x with index := ix, loaded := loaded.reown ix }, found)

/-! ## Reading trees -/

/-- Reads nodes in order and puts what they give into the index, up to the first that cannot be
read. -/
def addEach {ν α : Type} (read : Language → ν → Except ReadFault (Option (Symbol × α)))
    (put : Indexer → Symbol → α → Indexer) : List ν → Indexer → Indexer × Option ReadFault
  | [], x => (x, none)
  | n :: nodes, x => match read x.language n with
    | .error e => (x, some e)
    | .ok none => addEach read put nodes x
    | .ok (some (symbol, a)) => addEach read put nodes (put x symbol a)

/-- Adds the definitions at nodes. -/
def addDefinitions (s : Source) : List Cursor → Indexer → Indexer × Option ReadFault :=
  addEach (fun l => l.definition s) addDefinition

/-- Adds the calls at nodes. -/
def addReferences (s : Source) : List Tree → Indexer → Indexer × Option ReadFault :=
  addEach (fun l => l.call s) addReference

/-- Adds all definitions and then all calls of a tree. -/
def addTree (x : Indexer) (s : Source) (root : Tree) : Indexer × Option ReadFault :=
  match addDefinitions s (x.language.definitionNodes root) x with
  | (x, some e) => (x, some e)
  | (x, none) => addReferences s (x.language.callNodes root) x

/-! ## Reading files -/

/-- The path under which a file is recorded. -/
def recordedPath (x : Indexer) (file project : Path) : Except IndexingError Path :=
  if x.relativePaths then match file.relativeTo? project with
    | some p => .ok p
    | none => .error (.outside file project)
  else .ok file

/-- The bytes of a regular file. -/
def bytesAt? (fs : Files) (file : Path) : Option ByteArray :=
  match fs.at? file with
  | some (.regular (.bytes data)) => some data
  | some (.regular (.database _)) => some .empty
  | _ => none

/-- Indexes one file; what is not a regular file is passed over. -/
def indexFile (x : Indexer) (parse : Parser) (fs : Files) (file project : Path) :
    Indexer × Option IndexingError :=
  match bytesAt? fs file with
  | none => (x, none)
  | some bytes => match x.recordedPath file project with
    | .error e => (x, some e)
    | .ok recorded =>
      (x.addTree ⟨recorded, bytes⟩ (parse bytes)).map id (Option.map .unreadable)

/-- Indexes files in order, up to the first that fails. -/
def indexFiles (parse : Parser) (fs : Files) (project : Path) :
    List Path → Indexer → Indexer × Option IndexingError
  | [], x => (x, none)
  | file :: files, x => match x.indexFile parse fs file project with
    | (x, some e) => (x, some e)
    | (x, none) => indexFiles parse fs project files x

/-- The files of a language below a directory. -/
def projectFiles (l : Language) (fs : Files) (project : Path) : List Path :=
  (fs.below project).filter fun p => l.extensions.contains p.suffix

/-- Indexes all files of the language below a directory. -/
def indexProject (x : Indexer) (parse : Parser) (fs : Files) (project : Path) :
    Indexer × Option IndexingError :=
  indexFiles parse fs project (projectFiles x.language fs project) x

/-! ## The index -/

/-- The definitions of the function of a name. -/
def findDefinitions (x : Indexer) (name : Text) : List Definition :=
  x.index.definitions (.function name)

/-- The calls of the function of a name. -/
def findReferences (x : Indexer) (name : Text) : List Reference :=
  x.index.references (.function name)

/-- The indexer with an empty index of the same kind. -/
def clear (x : Indexer) : Indexer := { x with index := .empty x.index.kind, loaded := .fresh }

/-- The type that a symbol of the index holds. -/
def typeOf [Library] (x : Indexer) (s : Symbol) : SymbolType :=
  if x.loaded.symbols.contains s then Library.typeOf s.kind else .member s.kind

/-- Whether the index can be saved in a format. A document tells the values of the types that
symbols hold. -/
def isSavable [Library] (x : Indexer) : Store.Format → Bool
  | .document => x.index.symbols.all fun s => (x.typeOf s).value?.isSome
  | .database => true

/-- Saves the index, with the files after the attempt. -/
def save [Library] (x : Indexer) (fs : Files) (f : Store.Format) (p : Path) :
    Files × Option Store.Error :=
  match Store.save fs f p x.index.snapshot with
  | (fs, some e) => (fs, some e)
  | (saved, none) => if x.isSavable f then (saved, none) else (fs, some (.unwritable p))

/-- Replaces the index by a loaded one of the same kind. -/
def load [Library] (x : Indexer) (fs : Files) (f : Store.Format) (p : Path) :
    Files × Except Store.Error Indexer :=
  match Store.loadIndex fs f p x.index.kind with
  | (fs, .ok ix) =>
    let loaded := if f = .document then Origin.ofIndex ix else .fresh
    (fs, .ok { x with index := ix, loaded := loaded })
  | (fs, .error e) => (fs, .error e)

end Indexer

end CallAtlas
