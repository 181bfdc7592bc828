import CallAtlas.Fetch
import CallAtlas.Graph.Traversal
import CallAtlas.Graph.Route
import CallAtlas.Graph.Reach
import CallAtlas.Indexer
import CallAtlas.Language.Catalog
import CallAtlas.Todo.Basic

/-! # The service

One repository at a time is set up: its index is loaded from its cache, or made from its files and
put into the cache. The tools then answer questions about the index, its call graph and the files,
and keep a to-do list of definitions that wait for a note. -/

namespace CallAtlas

/-! ## State -/

/-- How the index of a repository is cached. -/
inductive CacheChoice where
  | document
  | database
  /-- As the cache that is there, or else as a document. -/
  | automatic
  | unsupported (name : Text)
  deriving DecidableEq, Repr

def CacheChoice.ofText (name : Text) : CacheChoice :=
  if name = "json" then .document
  else if name = "sqlite" then .database
  else if name = "auto" then .automatic
  else .unsupported name

/-- The repository that is set up. -/
structure Setup where
  indexer : Indexer
  repo : Path
  choice : CacheChoice
  /-- Tells this index from those that were set up before. -/
  serial : Nat

/-- All that a service knows. A task carries the serial number of the index it was made for. -/
structure Service where
  files : Files
  setup : Option Setup
  nextSerial : Nat
  todo : TodoList Site Note Nat
  graph : Option Graph.CallGraph
  cache : Fetch.Cache

/-- A service that nothing has been asked of. -/
def Service.start (files : Files) : Service :=
  ⟨files, none, 0, .empty "DescribeDefinitions" true, none, .empty⟩

/-! ## Failures -/

/-- Why a tool fails. -/
inductive ServiceError where
  | notSetUp
  | notSetUpForLog
  | notSetUpForTodo
  | unsupportedCache (name : Text)
  | unknownLanguage (name : Text)
  | loadFailed (cache : Path)
  | indexFailed (repo : Path)
  | persistFailed (cache : Path)
  | unknownPolicy (name : Text)
  | namelessDefinition
  | file (cause : FileError)
  | query (cause : QueryError)
  | graph (cause : Graph.Error)
  deriving Repr

def ServiceError.message : ServiceError → Text
  | .notSetUp => "Indexer is not initialized. Call setup_repo_index first. "
  | .notSetUpForLog => "Indexer is not initialized. Call setup_repo_index first. "
      ++ "Cannot log function calls before initializing the indexer."
  | .notSetUpForTodo => "Please initialize the code index first."
  | .unsupportedCache name => "Unsupported cache strategy: " ++ name
  | .unknownLanguage name => "No language processor found for '" ++ name ++ "'"
  | .loadFailed p => "Failed to load index data from " ++ p.toText
  | .indexFailed p => "Failed to index project at " ++ p.toText
  | .persistFailed p => "Failed to persist index data to " ++ p.toText
  | .unknownPolicy name => "Invalid traverse_policy: " ++ name ++ ". Must be one of: "
      ++ "['arbitrary', 'bfs_callee_to_caller', 'bfs_caller_to_callee']"
  | .namelessDefinition => "a definition has no name of its own"
  | .file _ => "the file system refused"
  | .query cause => cause.message
  | .graph cause => cause.message

/-- A tool changes the service and answers or fails; a failure keeps the changes made before. -/
abbrev Tool := ExceptT ServiceError (StateM Service)

namespace Service

/-- A tool that hands on an answer or a failure. -/
def lift {ε α : Type} (wrap : ε → ServiceError) : Except ε α → Tool α
  | .ok a => pure a
  | .error e => throw (wrap e)

/-- The repository that is set up. -/
def current (absent : ServiceError) : Tool Setup := do
  match (← get).setup with
  | some s => return s
  | none => throw absent

/-- The index of the repository that is set up. -/
def index : Tool Index := do return (← current .notSetUp).indexer.index

/-- Changes the indexer of the repository that is set up. -/
def onIndexer (f : Indexer → Indexer) : Tool Unit :=
  modify fun s => { s with setup := s.setup.map fun st => { st with indexer := f st.indexer } }

/-! ## The cache of a repository -/

/-- The directory of a repository's cache. -/
def cacheDirectory (repo : Path) : Path := repo.child ".code_index.cache"

/-- The file of a cache of a format. -/
def cachePath (repo : Path) : Store.Format → Path
  | .document => (cacheDirectory repo).child "index.json"
  | .database => (cacheDirectory repo).child "index.sqlite"

/-- The format of a repository's cache. -/
def cacheFormat (fs : Files) (repo : Path) : CacheChoice → Except ServiceError Store.Format
  | .document => .ok .document
  | .database => .ok .database
  | .automatic =>
    if fs.pathExists (cachePath repo .document) then .ok .document
    else if fs.pathExists (cachePath repo .database) then .ok .database
    else .ok .document
  | .unsupported name => .error (.unsupportedCache name)

/-- The files with a log, which is made if it is missing. -/
def openLog (fs : Files) (log : Path) : Except FileError Files :=
  if fs.isDirectory log then .error .isADirectory
  else if fs.pathExists log then .ok fs
  else fs.write log (.bytes .empty)

/-- Keeps the files after an attempt, which may have failed. -/
def keepFiles {ε : Type} (wrap : ε → ServiceError) (attempt : Files × Option ε) : Tool Unit := do
  modify fun s => { s with files := attempt.1 }
  match attempt.2 with
  | none => return
  | some e => throw (wrap e)

/-- Notes in the cache that a tool is called. -/
def logCall : Tool Unit := do
  let st ← current .notSetUpForLog
  let fs := (← get).files
  discard (lift id (cacheFormat fs st.repo st.choice))
  let directory := cacheDirectory st.repo
  keepFiles .file (fs.within directory fun fs => openLog fs (directory.child "function_calls.log"))

/-! ## Setting up -/

/-- Loads the index from a cache. -/
def loadCache [Library] (st : Setup) (f : Store.Format) : Tool Unit := do
  let p := cachePath st.repo f
  match st.indexer.load (← get).files f p with
  | (fs, .ok x) => modify fun s => { s with files := fs, setup := some { st with indexer := x } }
  | (fs, .error _) =>
    modify fun s => { s with files := fs }
    throw (.loadFailed p)

/-- Makes the index from the files of the repository and puts it into the cache. -/
def fillCache [Library] (parse : Parser) (st : Setup) (f : Store.Format) : Tool Unit := do
  let p := cachePath st.repo f
  let fs := (← get).files
  let (x, e) := st.indexer.indexProject parse fs st.repo
  modify fun s => { s with setup := some { st with indexer := x } }
  if e.isSome then throw (.indexFailed st.repo)
  keepFiles (fun _ => .persistFailed p) (fs.makeDirectories p.parent)
  keepFiles (fun _ => .persistFailed p) (x.save (← get).files f p)

/-- Sets up a repository. From the moment that its language is known it takes the place of the one
before. -/
def setUp [Library] (parse : Parser) (repo : Path) (language : Text) (choice : CacheChoice) :
    Tool Text := do
  match Language.byName? language with
  | none => throw (.unknownLanguage language)
  | some l =>
    let st : Setup := ⟨.start l .linked true, repo, choice, (← get).nextSerial⟩
    modify fun s => { s with setup := some st, nextSerial := s.nextSerial + 1 }
    let fs := (← get).files
    let f ← lift id (cacheFormat fs repo choice)
    if fs.pathExists (cachePath repo f) then loadCache st f else fillCache parse st f
    return "Success: indexed repository at " ++ repo.toText ++ " with language '" ++ language
      ++ "'"

/-- Forgets the repository that is set up. -/
def clearSetup : Tool Unit := modify fun s => { s with setup := none }

/-- Puts the index into the cache. -/
def persist [Library] : Tool Text := do
  let st ← current .notSetUp
  let fs := (← get).files
  let f ← lift id (cacheFormat fs st.repo st.choice)
  let p := cachePath st.repo f
  keepFiles (fun _ => .persistFailed p) (st.indexer.save fs f p)
  return "Index data successfully persisted to " ++ p.toText

end Service

end CallAtlas
