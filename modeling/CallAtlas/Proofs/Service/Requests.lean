import CallAtlas.Library.Standard
import CallAtlas.Proofs.Index.Runs
import CallAtlas.Proofs.Service.Tools
import CallAtlas.Service.Search
import CallAtlas.Service.Source

/-! # Requests

`Request` is everything that a service can be asked for, and `serve` the service after a list of
requests, whatever became of the files in between; `attend` starts with a new service. What every
request of some sort keeps, all of them keep (`keeps_serve`). Most tools leave the repository that
is set up alone (`Spares`). The others leave it with a linked index whose records stand at their own
places, so every service that can be reached has such an index, or none (`indexed_attend`). -/

namespace CallAtlas

theorem Indexer.Keyed.setSource {x : Indexer} (h : x.Keyed) (s : Symbol) (l : Location)
    (text : Text) : (x.adopt (x.index.setSource s l text)).Keyed := by
  obtain ⟨ix, hx, hk⟩ := h
  refine ⟨ix.setSource s l text, ?_, hk.setSource s l text⟩
  rw [Indexer.adopt, hx]
  rfl

namespace Service

variable {α β : Type} {s : Service}

/-! ## Tools that only change the files -/

/-- A property of services that does not look at the files. -/
def FilesAside (P : Service → Prop) : Prop := ∀ s fs, P s → P { s with files := fs }

namespace FilesAside

variable {P : Service → Prop}

theorem keeps_keepFiles (h : FilesAside P) {ε : Type} (wrap : ε → ServiceError)
    (attempt : Files × Option ε) : Keeps P (keepFiles wrap attempt) := by
  refine (keeps_modify fun s hs => h s attempt.1 hs).bind fun _ => ?_
  split
  · exact keeps_pure _
  · exact keeps_throw _

theorem keeps_logCall (h : FilesAside P) : Keeps P logCall :=
  (keeps_current _).bind fun _ => keeps_get_bind fun _ _ =>
    (keeps_lift _ _).discard.bind fun _ => h.keeps_keepFiles _ _

theorem keeps_persist [Library] (h : FilesAside P) : Keeps P persist :=
  (keeps_current _).bind fun _ => keeps_get_bind fun _ _ =>
    (keeps_lift _ _).bind fun _ => (h.keeps_keepFiles _ _).bind fun _ => keeps_pure _

end FilesAside

/-! ## Tools for the call graph and the list -/

/-- A property of services that looks neither at the files nor at the call graph or the list. -/
structure Aside (P : Service → Prop) : Prop where
  files : FilesAside P
  graph : ∀ s g, P s → P { s with graph := g }
  todo : ∀ s list, P s → P { s with todo := list }

namespace Aside

variable {P : Service → Prop} {t : Tool α}

theorem keeps_logged (h : Aside P) (ht : Keeps P t) : Keeps P (do logCall; t) :=
  h.files.keeps_logCall.bind fun _ => ht

theorem keeps_callGraph (h : Aside P) : Keeps P callGraph := by
  refine keeps_get_bind fun s _ => ?_
  split
  · exact keeps_pure _
  · refine Keeps.bind ((keeps_current _).bind fun _ => keeps_pure _) fun _ => ?_
    refine (keeps_lift _ _).bind fun _ => ?_
    exact Keeps.bind (keeps_modify fun s hs => h.graph s _ hs) fun _ => keeps_pure _

theorem keeps_order (h : Aside P) (d : Graph.Direction) : Keeps P (order d) :=
  h.keeps_callGraph.bind fun _ => keeps_lift _ _

theorem keeps_fillTodo (h : Aside P) (policy : Policy) (skipNoted : Bool) :
    Keeps P (fillTodo policy skipNoted) := by
  refine (keeps_current _).bind fun st => Keeps.bind ?_ fun _ =>
    keeps_modify fun s hs => h.todo s _ hs
  cases policy with
  | arbitrary => exact keeps_pure _
  | calleesFirst => exact (h.keeps_order _).bind fun _ => keeps_pure _
  | callersFirst => exact (h.keeps_order _).bind fun _ => keeps_pure _

theorem keeps_startTodoBy (h : Aside P) (policy : Option Text) (skipNoted : Bool) :
    Keeps P (startTodoBy policy skipNoted) := by
  refine h.keeps_logged ?_
  split
  · exact (h.keeps_fillTodo _ _).bind fun _ => keeps_pure _
  · split
    · exact (keeps_throw _).bind fun _ => keeps_pure _
    · exact (h.keeps_fillTodo _ _).bind fun _ => keeps_pure _

theorem keeps_nextTask (h : Aside P) : Keeps P nextTask := by
  refine h.keeps_logged (keeps_get_bind fun s _ => ?_)
  exact Keeps.bind (keeps_modify fun s hs => h.todo s _ hs) fun _ => keeps_pure _

end Aside

/-! ## Tools that leave the repository alone -/

/-- The tool leaves the repository that is set up as it is. -/
def Spares (t : Tool α) : Prop := ∀ setup, Keeps (fun s => s.setup = setup) t

theorem Spares.setup_eq {t : Tool α} (h : Spares t) (s : Service) : (t.on s).2.setup = s.setup :=
  h s.setup s rfl

theorem Spares.bind {t : Tool α} {k : α → Tool β} (ht : Spares t) (hk : ∀ a, Spares (k a)) :
    Spares (t >>= k) := fun setup => (ht setup).bind fun a => hk a setup

theorem spares_pure (a : α) : Spares (pure a : Tool α) := fun _ => keeps_pure a

theorem spares_get : Spares (get : Tool Service) := fun _ _ h => h

theorem spares_lift {ε : Type} (wrap : ε → ServiceError) (x : Except ε α) : Spares (lift wrap x) :=
  fun _ => keeps_lift wrap x

theorem spares_current (absent : ServiceError) : Spares (current absent) :=
  fun _ => keeps_current absent

theorem spares_keepFiles {ε : Type} (wrap : ε → ServiceError) (attempt : Files × Option ε) :
    Spares (keepFiles wrap attempt) :=
  fun _ => FilesAside.keeps_keepFiles (fun _ _ h => h) wrap attempt

theorem spares_logCall : Spares logCall := fun _ => FilesAside.keeps_logCall fun _ _ h => h

theorem spares_index : Spares index := (spares_current _).bind fun _ => spares_pure _

theorem spares_logged {t : Tool α} (h : Spares t) : Spares (do logCall; t) :=
  spares_logCall.bind fun _ => h

/-! ## Tools that change its index -/

/-- The repository that is set up, if there is one, has a linked index with its records at their own
places. -/
def Indexed (s : Service) : Prop := ∀ st ∈ s.setup, st.indexer.Keyed

theorem Indexed.setup {st : Setup} (h : s.Indexed) (hst : s.setup = some st) : st.indexer.Keyed :=
  h st hst

theorem aside_indexed : Aside Indexed := ⟨fun _ _ h => h, fun _ _ h => h, fun _ _ h => h⟩

theorem keeps_fetchWith {P : Service → Prop} (h : ∀ s cache, P s → P { s with cache := cache })
    (f : Files → Fetch.Cache → Fetch.Cache × α) : Keeps P (fetchWith f) := by
  intro s hs
  simp only [fetchWith, on_bind, on_get, on_set, on_pure]
  exact h s _ hs

theorem indexed_of_setup {st : Setup} (hst : s.setup = some st) (h : st.indexer.Keyed) :
    s.Indexed := by
  intro st' hst'
  rw [hst] at hst'
  cases hst'
  exact h

theorem keeps_indexed_onIndexer {f : Indexer → Indexer}
    (hf : ∀ x : Indexer, x.Keyed → (f x).Keyed) : Keeps Indexed (onIndexer f) := by
  refine keeps_modify fun s hs st hst => ?_
  obtain ⟨st₀, hst₀, rfl⟩ := Option.map_eq_some_iff.1 hst
  exact hf _ (hs st₀ hst₀)

/-- A property of services that another repository with its records at their own places does not
change, nor any other files. -/
structure Indifferent (P : Service → Prop) : Prop where
  files : FilesAside P
  setup : ∀ (s : Service) (st : Setup) (serial : Nat), st.indexer.Keyed → P s →
    P { s with setup := some st, nextSerial := serial }

namespace Indifferent

variable {P : Service → Prop}

theorem keeps_loadCache [Library] (h : Indifferent P) {st : Setup} (hst : st.indexer.Keyed)
    (f : Store.Format) : Keeps P (loadCache st f) := by
  refine keeps_get_bind fun s _ => ?_
  split
  · next fs x hload =>
    exact keeps_modify fun t ht =>
      h.setup { t with files := fs } { st with indexer := x } t.nextSerial (hst.load hload)
        (h.files t fs ht)
  · next fs _ _ => exact (keeps_modify fun t ht => h.files t fs ht).bind fun _ => keeps_throw _

theorem keeps_fillCache [Library] (h : Indifferent P) (parse : Parser) {st : Setup}
    (hst : st.indexer.Keyed) (f : Store.Format) : Keeps P (fillCache parse st f) := by
  refine keeps_get_bind fun s _ => ?_
  have hx := hst.indexProject parse s.files st.repo
  have hsave : Keeps P (do
      keepFiles (fun _ => .persistFailed (cachePath st.repo f))
        (s.files.makeDirectories (cachePath st.repo f).parent)
      keepFiles (fun _ => .persistFailed (cachePath st.repo f))
        ((st.indexer.indexProject parse s.files st.repo).1.save (← get).files f
          (cachePath st.repo f))) :=
    (h.files.keeps_keepFiles _ _).bind fun _ =>
      keeps_get_bind fun _ _ => h.files.keeps_keepFiles _ _
  refine (keeps_modify fun t ht => h.setup t { st with
    indexer := (st.indexer.indexProject parse s.files st.repo).1 } t.nextSerial hx ht).bind
    fun _ => ?_
  split
  · exact (keeps_throw _).bind fun _ => hsave
  · exact hsave

theorem keeps_loadOrFill [Library] (h : Indifferent P) (parse : Parser) {x : Indexer} (hx : x.Keyed)
    (repo : Path) (choice : CacheChoice) (serial : Nat) (fs : Files) (answer : Text) : Keeps P (do
      let f ← lift id (cacheFormat fs repo choice)
      if fs.pathExists (cachePath repo f) then loadCache ⟨x, repo, choice, serial⟩ f
      else fillCache parse ⟨x, repo, choice, serial⟩ f
      return answer) := by
  refine (keeps_lift _ _).bind fun f => ?_
  split
  · exact (h.keeps_loadCache hx f).bind fun _ => keeps_pure _
  · exact (h.keeps_fillCache parse hx f).bind fun _ => keeps_pure _

theorem keeps_setUp [Library] (h : Indifferent P) (parse : Parser) (repo : Path) (language : Text)
    (choice : CacheChoice) : Keeps P (setUp parse repo language choice) := by
  unfold setUp
  split
  · exact keeps_throw _
  · next l _ =>
    refine keeps_get_bind fun s _ => ?_
    have hst : (Indexer.start l .linked true).Keyed := .start l true
    refine (keeps_modify fun t ht => h.setup t ⟨.start l .linked true, repo, choice, s.nextSerial⟩
      (t.nextSerial + 1) hst ht).bind fun _ => ?_
    exact keeps_get_bind fun t _ => h.keeps_loadOrFill parse hst repo choice s.nextSerial t.files _

end Indifferent

theorem indifferent_indexed : Indifferent Indexed :=
  ⟨fun _ _ hs => hs, fun _ _ _ hst _ => indexed_of_setup rfl hst⟩

/-- An index that is made stays, whether it can be kept or not. -/
theorem setup_fillCache [Library] (parse : Parser) (st : Setup) (f : Store.Format) (s : Service) :
    ((fillCache parse st f).on s).2.setup =
      some { st with indexer := (st.indexer.indexProject parse s.files st.repo).1 } := by
  have hsave := (spares_keepFiles (fun _ => .persistFailed (cachePath st.repo f))
      (s.files.makeDirectories (cachePath st.repo f).parent)).bind fun _ =>
    spares_get.bind fun t => spares_keepFiles (fun _ => .persistFailed (cachePath st.repo f))
      ((st.indexer.indexProject parse s.files st.repo).1.save t.files f (cachePath st.repo f))
  rw [fillCache, on_bind, on_get]
  dsimp only
  rw [on_bind, on_modify]
  dsimp only
  split
  · rfl
  · exact hsave.setup_eq _

/-- Once its language is known a repository is set up, and then its cache is loaded or filled. -/
theorem on_setUp [Library] {language : Text} {l : Language}
    (hl : Language.byName? language = some l) (parse : Parser) (repo : Path) (choice : CacheChoice) (s : Service) :
    (setUp parse repo language choice).on s = (do
      let f ← lift id (cacheFormat s.files repo choice)
      if s.files.pathExists (cachePath repo f) then
        loadCache ⟨.start l .linked true, repo, choice, s.nextSerial⟩ f
      else fillCache parse ⟨.start l .linked true, repo, choice, s.nextSerial⟩ f
      return "Success: indexed repository at " ++ repo.toText ++ " with language '" ++ language
        ++ "'" : Tool Text).on { s with
          setup := some ⟨.start l .linked true, repo, choice, s.nextSerial⟩
          nextSerial := s.nextSerial + 1 } := by
  unfold setUp
  rw [hl]
  rfl

/-- A property of services that stays when source texts are fetched and put into the index. -/
structure SourcesAside (P : Service → Prop) : Prop extends Aside P where
  cache : ∀ (s t : Service) p start stop, P s → P t →
    P { t with cache := (Fetch.byteRange s.files s.cache p start stop).1 }
  source : ∀ symbol l text, Keeps P (onIndexer fun x => x.adopt (x.index.setSource symbol l text))

namespace SourcesAside

variable {P : Service → Prop}

theorem keeps_attachSource (h : SourcesAside P) (repo : Path) (symbol : Symbol) (d : Definition) :
    Keeps P (attachSource repo symbol d) := by
  unfold attachSource
  refine keeps_get_bind fun s hs => ?_
  split
  · exact keeps_pure _
  · next file _ =>
    have hcache := fun t => h.cache s t file d.location.startByte d.location.endByte hs
    generalize Fetch.byteRange s.files s.cache file d.location.startByte d.location.endByte = found
      at hcache ⊢
    obtain ⟨cache, fetched⟩ := found
    refine Keeps.bind (keeps_modify hcache) fun _ => ?_
    simp only
    split
    · exact keeps_pure _
    · next text _ =>
      exact Keeps.bind (h.source symbol d.location text) fun _ => keeps_pure _

theorem keeps_attachSources (h : SourcesAside P) (repo : Path) (symbol : Symbol)
    (ds : List Definition) : Keeps P (attachSources repo symbol ds) := by
  induction ds with
  | nil => exact keeps_pure _
  | cons d ds ih =>
    exact (h.keeps_attachSource repo symbol d).bind fun _ => ih.bind fun _ => keeps_pure _

theorem keeps_attachAll (h : SourcesAside P) (repo : Path) (answers : List Answer) :
    Keeps P (attachAll repo answers) := by
  induction answers with
  | nil => exact keeps_pure _
  | cons a rest ih =>
    exact (h.keeps_attachSources repo a.1 _).bind fun _ => ih.bind fun _ => keeps_pure _

theorem keeps_search [Library] (h : SourcesAside P) (q : Query) : Keeps P (search q) := by
  refine h.keeps_logged (Keeps.bind ?_ fun answers => ?_)
  · exact Keeps.bind ((keeps_current _).bind fun _ => keeps_pure _) fun _ => keeps_lift _ _
  refine (keeps_current _).bind fun st => (h.keeps_attachAll st.repo answers).bind fun _ => ?_
  exact keeps_get_bind fun _ _ => (keeps_lift _ _).bind fun _ => keeps_pure _

end SourcesAside

theorem sourcesAside_indexed : SourcesAside Indexed where
  toAside := aside_indexed
  cache _ _ _ _ _ _ ht := ht
  source symbol l text := keeps_indexed_onIndexer fun _ hx => hx.setSource symbol l text

theorem keyed_submit_react {setup : Option Setup} (h : ∀ st ∈ setup, st.indexer.Keyed)
    (list : TodoList Site Note Nat) (site : Site) (n : Note) :
    ∀ st ∈ (TodoList.submit react site n (list, setup)).1.2, st.indexer.Keyed := by
  unfold TodoList.submit
  split
  · exact h
  · split
    · exact h
    · intro st hst
      obtain ⟨st₀, hst₀, rfl⟩ := Option.map_eq_some_iff.1 hst
      exact keyed_noteInto (h st₀ hst₀) _ site n

theorem keeps_indexed_takeNote [Library] (site : Site) (n : Note) :
    Keeps Indexed (takeNote site n) := by
  refine keeps_get_bind fun s hs => ?_
  have hend : Keeps Indexed (do
      discard persist
      return "Note submitted for " ++ site.symbol.name ++ " at " ++ site.location.toText
      : Tool Text) := aside_indexed.files.keeps_persist.discard.bind fun _ => keeps_pure _
  split
  · exact Keeps.bind (fun t _ => keyed_submit_react hs s.todo site n) fun _ => hend
  · refine (keeps_current _).discard.bind fun _ => ?_
    exact (keeps_indexed_onIndexer fun x hx => hx.addDefinition _ _).bind fun _ => hend

/-! ## Questions about the call graph -/

/-- A question about the call graph. -/
inductive Question where
  | overview
  | part (roots : List Location) (depth : Int)
  | routes (start goal : Location) (k : Int) (mode : Graph.RouteMode)
  | order (d : Graph.Direction)

/-- The answer to a question about the call graph. -/
inductive Reply where
  | overview (o : Overview)
  | part (g : Graph.CallGraph)
  | routes (rs : List Graph.Route)
  | order (listed : List Location)

/-- Asks the service. -/
def Question.ask : Question → Tool Reply
  | .overview => Reply.overview <$> graphOverview
  | .part roots depth => Reply.part <$> graphPart roots depth
  | .routes start goal k mode => Reply.routes <$> routesBetween start goal k mode
  | .order d => Reply.order <$> Service.order d

theorem Aside.keeps_ask {P : Service → Prop} (h : Aside P) (q : Question) : Keeps P q.ask := by
  cases q with
  | overview => exact Keeps.map (h.keeps_callGraph.bind fun _ => keeps_lift _ _) _
  | part roots depth => exact Keeps.map (h.keeps_callGraph.bind fun _ => keeps_lift _ _) _
  | routes start goal k mode => exact Keeps.map (h.keeps_callGraph.bind fun _ => keeps_lift _ _) _
  | order d => exact (h.keeps_order d).map _

/-! ## Requests -/

/-- What can be asked of a service. Between two requests anything can happen to the files. -/
inductive Request where
  | change (files : Files → Files)
  | setUp (repo : Path) (language : Text) (choice : CacheChoice)
  | clearSetup
  | persist
  | search (q : Query)
  | symbols
  | ask (q : Question)
  | askLogged (q : Question)
  | clearGraph
  | fillTodo (policy : Policy) (skipNoted : Bool)
  | startTodo
  | startTodoBy (policy : Option Text) (skipNoted : Bool)
  | nextTask
  | pendingTasks (n : Int)
  | fullDefinition (site : Site)
  | takeNote (site : Site) (n : Note)
  | submit (site : Site) (n : Note)
  | progress
  | fetchText (p : Path)
  | fetchLines (p : Path) (start stop : Int)
  | fetchBytes (p : Path) (start stop : Int)
  | fetchProperBytes (p : Path) (start stop : Int)

/-- The tool for a request, without its answer. -/
def Request.tool [Library] (parse : Parser) : Request → Tool Unit
  | .change files => modify fun s => { s with files := files s.files }
  | .setUp repo language choice => discard (Service.setUp parse repo language choice)
  | .clearSetup => Service.clearSetup
  | .persist => discard Service.persist
  | .search q => discard (Service.search q)
  | .symbols => discard Service.symbols
  | .ask q => discard q.ask
  | .askLogged q => do logCall; discard q.ask
  | .clearGraph => Service.clearGraph
  | .fillTodo policy skipNoted => Service.fillTodo policy skipNoted
  | .startTodo => discard Service.startTodo
  | .startTodoBy policy skipNoted => discard (Service.startTodoBy policy skipNoted)
  | .nextTask => discard Service.nextTask
  | .pendingTasks n => discard (Service.pendingTasks n)
  | .fullDefinition site => discard (Service.fullDefinition site)
  | .takeNote site n => discard (Service.takeNote site n)
  | .submit site n => discard (Service.submit site n)
  | .progress => discard Service.progress
  | .fetchText p => discard (Service.fetchText p)
  | .fetchLines p start stop => discard (Service.fetchLines p start stop)
  | .fetchBytes p start stop => discard (Service.fetchBytes p start stop)
  | .fetchProperBytes p start stop => discard (Service.fetchProperBytes p start stop)

/-- The service after some requests, also if they failed. -/
def serve [Library] (parse : Parser) (s : Service) (requests : List Request) : Service :=
  requests.foldl (fun s r => ((r.tool parse).on s).2) s

@[simp]
theorem serve_nil [Library] (parse : Parser) (s : Service) : serve parse s [] = s := rfl

@[simp]
theorem serve_cons [Library] (parse : Parser) (s : Service) (r : Request) (rs : List Request) :
    serve parse s (r :: rs) = serve parse ((r.tool parse).on s).2 rs := rfl

theorem serve_append [Library] (parse : Parser) (s : Service) (rs rs' : List Request) :
    serve parse s (rs ++ rs') = serve parse (serve parse s rs) rs' :=
  List.foldl_append

/-- A new service after some requests. -/
def attend [Library] (parse : Parser) (files : Files) (requests : List Request) : Service :=
  serve parse (start files) requests

/-- Requests keep what each of them keeps. -/
theorem keeps_serve [Library] {P : Service → Prop} {parse : Parser} {requests : List Request}
    (h : ∀ r ∈ requests, Keeps P (r.tool parse)) (hs : P s) : P (serve parse s requests) :=
  List.foldlRecOn requests _ hs fun s hs r hr => h r hr s hs

/-- A request that leaves the repository that is set up and the memory of files alone. -/
def Request.Passive : Request → Prop
  | .setUp .. | .clearSetup | .search _ | .takeNote .. | .submit .. => False
  | .fetchText _ | .fetchLines .. | .fetchBytes .. | .fetchProperBytes .. => False
  | _ => True

theorem Aside.keeps_tool [Library] {P : Service → Prop} (h : Aside P) (parse : Parser) {r : Request}
    (hr : r.Passive) : Keeps P (r.tool parse) := by
  have hindex : Keeps P index := (keeps_current _).bind fun _ => keeps_pure _
  cases r with
  | change files => exact keeps_modify fun s hs => h.files s _ hs
  | persist => exact h.files.keeps_persist.discard
  | symbols => exact (h.keeps_logged ((keeps_current _).bind fun _ => keeps_pure _)).discard
  | ask q => exact (h.keeps_ask q).discard
  | askLogged q => exact h.keeps_logged (h.keeps_ask q).discard
  | clearGraph => exact keeps_modify fun s hs => h.graph s _ hs
  | fillTodo policy skipNoted => exact h.keeps_fillTodo policy skipNoted
  | startTodo =>
    exact (h.keeps_logged ((h.keeps_fillTodo _ _).bind fun _ => keeps_pure _)).discard
  | startTodoBy policy skipNoted => exact (h.keeps_startTodoBy policy skipNoted).discard
  | nextTask => exact h.keeps_nextTask.discard
  | pendingTasks n => exact (h.keeps_logged (keeps_get_bind fun _ _ => keeps_pure _)).discard
  | fullDefinition site => exact (h.keeps_logged (hindex.bind fun _ => keeps_pure _)).discard
  | progress => exact (h.keeps_logged (keeps_get_bind fun _ _ => keeps_pure _)).discard
  | _ => exact hr.elim

theorem keeps_indexed_tool [Library] (parse : Parser) (r : Request) :
    Keeps Indexed (r.tool parse) := by
  cases r with
  | setUp repo language choice =>
    exact (indifferent_indexed.keeps_setUp parse repo language choice).discard
  | clearSetup => exact keeps_modify fun s _ => nofun
  | search q => exact (sourcesAside_indexed.keeps_search q).discard
  | takeNote site n => exact (keeps_indexed_takeNote site n).discard
  | submit site n => exact (aside_indexed.keeps_logged (keeps_indexed_takeNote site n)).discard
  | fetchText p => exact (keeps_fetchWith (fun _ _ h => h) _).discard
  | fetchLines p start stop => exact (keeps_fetchWith (fun _ _ h => h) _).discard
  | fetchBytes p start stop => exact (keeps_fetchWith (fun _ _ h => h) _).discard
  | fetchProperBytes p start stop => exact (keeps_fetchWith (fun _ _ h => h) _).discard
  | _ => exact aside_indexed.keeps_tool parse trivial

/-- After any requests the repository that is set up has a linked index with its records at their
own places. -/
theorem indexed_attend [Library] (parse : Parser) (files : Files) (requests : List Request) :
    (attend parse files requests).Indexed :=
  keeps_serve (fun r _ => keeps_indexed_tool parse r) fun _ h => nomatch h

/-! Two repositories have the same file. -/

def twinTree : Tree :=
  .node "module" 0 18 none
    [.node "function_definition" 0 17 none
      [.node "identifier" 4 5 (some "name") [],
       .node "block" 13 17 (some "body") [.node "pass_statement" 13 17 none []]]]

def twinSite : Site := ⟨.function "f", ⟨.ofText "m.py", 1, 0, 2, 8, 0, 17⟩⟩

def twinNote : Note := ⟨"d", "v", "c"⟩

/-- The first of two repositories gets its file and is set up. -/
def setUpFirst : List Request :=
  [.change fun fs => (fs.makeDirectories (.ofText "a")).1,
   .change fun fs => (fs.after
     (fs.write (.ofText "a/m.py") (.bytes "def f():\n    pass\n".toUTF8))).1,
   .setUp (.ofText "a") "python" .document]

/-- The service after these requests. -/
def firstTwin : Service :=
  letI := Library.standard
  attend (fun _ => twinTree) (.empty []) setUpFirst

end Service

end CallAtlas
