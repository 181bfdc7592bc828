import CallAtlas.Service.Basic

/-! # Questions about symbols

Answers of the search tool come with the source text of the definitions. The text is put into the
index as well. -/

namespace CallAtlas.Service

/-- The file that a path stands for in a repository, from the root. -/
def resolve (fs : Files) (repo file : Path) : Except FileError Path := fs.resolve (repo.join file)

/-- What a tool tells besides its answer. -/
inductive Notice where
  | warning (text : Text)
  /-- The source text of a definition could not be fetched. -/
  | noSource (d : Definition)

/-- Answers a question. -/
def ask [Library] (q : Query) : Tool (List Answer) := do
  let ix ← index
  lift .query (ix.answer q)

/-- Fetches the source text of a definition and puts it into the index. A definition whose file
cannot be resolved stays as it is. -/
def attachSource (repo : Path) (symbol : Symbol) (d : Definition) :
    Tool (List Notice × Definition) := do
  let s ← get
  match resolve s.files repo d.location.file with
  | .error _ => return ([], d)
  | .ok file =>
    let (cache, fetched) :=
      Fetch.byteRange s.files s.cache file d.location.startByte d.location.endByte
    modify fun s => { s with cache := cache }
    let warnings := fetched.warnings.map Notice.warning
    match fetched.answer with
    | .error _ => return (warnings ++ [.noSource d], d)
    | .ok text =>
      onIndexer fun x => x.adopt (x.index.setSource symbol d.location text)
      return (warnings, { d with source := some text })

/-- Fetches the source texts of several definitions of a symbol. -/
def attachSources (repo : Path) (symbol : Symbol) :
    List Definition → Tool (List Notice × List Definition)
  | [] => return ([], [])
  | d :: ds => do
    let (notices, d) ← attachSource repo symbol d
    let (more, ds) ← attachSources repo symbol ds
    return (notices ++ more, d :: ds)

/-- Fetches the source texts of all definitions in answers. -/
def attachAll (repo : Path) : List Answer → Tool (List Notice × List Answer)
  | [] => return ([], [])
  | (symbol, info) :: rest => do
    let (notices, ds) ← attachSources repo symbol info.definitions
    let (more, rest) ← attachAll repo rest
    return (notices ++ more, (symbol, { info with definitions := ds }) :: rest)

/-- Fails if a file of a definition in answers cannot be resolved. -/
def checkFiles (fs : Files) (repo : Path) (answers : List Answer) : Except FileError Unit :=
  (answers.flatMap fun a => a.2.definitions).forM fun d =>
    (resolve fs repo d.location.file).map fun _ => ()

/-- Answers a question with source texts. All that can be fetched is fetched before a file that
cannot be resolved makes the tool fail. -/
def search [Library] (q : Query) : Tool (List Notice × List Answer) := do
  logCall
  let answers ← ask q
  let st ← current .notSetUp
  let found ← attachAll st.repo answers
  lift .file (checkFiles (← get).files st.repo answers)
  return found

/-! ## Symbols in order -/

/-- The printed form of a symbol of an indexer's index. -/
def printed [Library] (x : Indexer) (s : Symbol) : Text := Library.printed (x.typeOf s) s

/-- The symbols of an indexer's index in the order of their printed forms. -/
def symbolsOf [Library] (x : Indexer) : List Symbol :=
  x.index.symbols.mergeSort fun a b => (printed x a).le (printed x b)

/-- All symbols of the index in order, without a note that they were asked for. -/
def listSymbols [Library] : Tool (List Symbol) := do return symbolsOf (← current .notSetUp).indexer

/-- All symbols of the index in order. -/
def symbols [Library] : Tool (List Symbol) := do
  logCall
  listSymbols

end CallAtlas.Service
