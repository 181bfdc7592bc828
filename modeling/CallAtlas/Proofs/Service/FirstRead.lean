import CallAtlas.Proofs.Fetch.Windows
import CallAtlas.Proofs.Service.Sources
import Mathlib.Data.List.Induction

/-! # Source texts of files that have changed

A file is read once and then remembered: what a service remembers of it are the bytes that it had
at the request that first read it (`remembered_iff`). So when a repository is indexed again, its
definitions have the places that they have in the files now, but the texts that these places had
in the files as they were first read.

* `search_current_iff`: after a repository has been indexed, a search tells the text that a
  definition has in its file now iff the file has not been read before, or the definition's place
  had the same text when it was. -/

namespace CallAtlas

/-! ## Places in files -/

/-- The place covers some bytes, maybe none. -/
def Location.Spans (l : Location) : Prop := 0 ≤ l.startByte ∧ l.startByte ≤ l.endByte

/-- The text of the bytes that a place covers. -/
def Location.textIn (l : Location) (data : ByteArray) : Option Text :=
  Text.ofUTF8? (data.extract l.startByte.toNat l.endByte.toNat)

theorem Files.pathExists_of_read {fs : Files} {p : Path} {c : FileContent}
    (h : fs.read p = .ok c) : fs.pathExists p = true := by
  rw [pathExists, at?]
  unfold read at h
  split at h
  · cases h
  · next hlocate =>
    rw [hlocate]
    split at h
    · cases h
    all_goals next hentry => simp only [hentry, Option.isSome_some]

namespace Fetch

variable {fs : Files} {cache cache' : Cache} {p : Path} {data : ByteArray}

/-- The bytes of a file. -/
def bytesIn (fs : Files) (p : Path) : Option ByteArray := (fs.read p).toOption.map bytesOf

theorem byteWindow_eq_extract {stop : Int} (h : 0 ≤ stop) (data : ByteArray) (start : Int) :
    byteWindow data start stop = data.extract start.toNat stop.toNat := by
  rw [byteWindow_eq, if_pos h, bytesAsked, inRange_eq, extract_eq_toByteArray, Int.sub_zero,
    Int.sub_zero]

theorem bytes_of_none (h : cache.get? p = none) : (bytes fs cache p).2.toOption = bytesIn fs p := by
  rw [bytes, h, bytesIn]
  cases hread : fs.read p with
  | ok c => simp only [Files.pathExists_of_read hread, if_true]; rfl
  | error e => dsimp only; split <;> rfl

theorem toOption_decode (data : ByteArray) : (decode data).toOption = Text.ofUTF8? data := by
  unfold decode
  split <;> next h => rw [h]; rfl

/-- The text of a place, from memory if the file was read before. -/
theorem byteRange_of_spans {l : Location} (h : l.Spans) :
    (byteRange fs cache p l.startByte l.endByte).2.answer.toOption =
      (bytes fs cache p).2.toOption.bind l.textIn := by
  have hstop : 0 ≤ l.endByte := h.1.trans h.2
  rw [byteRange, if_neg (Int.not_lt.2 h.2)]
  rcases bytes fs cache p with ⟨cache, e | data⟩
  · rfl
  · simp only [toOption_decode, byteWindow_eq_extract hstop]
    simp only [Except.toOption, Option.bind_some, Location.textIn]

/-! ## What is remembered -/

/-- What is new in memory are the bytes of a file. -/
theorem Extends.bytesIn (h : Extends fs cache cache') (hnone : cache.get? p = none)
    (hsome : cache'.get? p = some data) : bytesIn fs p = some data := by
  rw [← bytes_of_none hnone, ← h.agrees p, bytes_of_some hsome]
  rfl

theorem extends_text (fs : Files) (cache : Cache) (p : Path) :
    Extends fs cache (text fs cache p).1 := by
  have hbytes := extends_bytes fs cache p
  unfold text
  split <;> next h => rw [h] at hbytes; exact hbytes

theorem extends_lines (fs : Files) (cache : Cache) (p : Path) (start stop : Int) :
    Extends fs cache (lines fs cache p start stop).1 := by
  have htext := extends_text fs cache p
  unfold lines
  split
  · exact .refl fs cache
  · split <;> next h => rw [h] at htext; exact htext

theorem extends_properByteRange (fs : Files) (cache : Cache) (p : Path) (start stop : Int) :
    Extends fs cache (properByteRange fs cache p start stop).1 := by
  unfold properByteRange
  split
  · exact .refl fs cache
  · exact extends_byteRange fs cache p start stop

end Fetch

namespace Service

variable {s t u : Service} {parse : Parser} {files : Files} {requests : List Request} {p : Path}
  {data : ByteArray}

/-! ## What requests remember -/

theorem aside_cache (cache : Fetch.Cache) : Aside fun s => s.cache = cache :=
  ⟨fun _ _ h => h, fun _ _ h => h, fun _ _ h => h⟩

theorem indifferent_cache (cache : Fetch.Cache) : Indifferent fun s => s.cache = cache :=
  ⟨fun _ _ h => h, fun _ _ _ _ h => h⟩

theorem sourcesAside_remembers (p : Path) (data : ByteArray) :
    SourcesAside fun s => s.cache.get? p = some data where
  files _ _ h := h
  graph _ _ h := h
  todo _ _ h := h
  cache s _ file start stop hs _ :=
    (Fetch.extends_byteRange s.files s.cache file start stop).kept p data hs
  source _ _ _ := keeps_modify fun _ h => h

theorem keeps_cache_takeNote [Library] (cache : Fetch.Cache) (site : Site) (n : Note) :
    Keeps (fun s => s.cache = cache) (takeNote site n) := by
  have hend : Keeps (fun s : Service => s.cache = cache) (do
      discard persist
      return "Note submitted for " ++ site.symbol.name ++ " at " ++ site.location.toText
      : Tool Text) := (aside_cache cache).files.keeps_persist.discard.bind fun _ => keeps_pure _
  refine keeps_get_bind fun s hs => ?_
  split
  · exact Keeps.bind (fun t _ => hs) fun _ => hend
  · refine (keeps_current _).discard.bind fun _ => ?_
    exact Keeps.bind (keeps_modify fun t ht => ht) fun _ => hend

theorem extends_of_keeps {α : Type} {tool : Tool α}
    (h : Keeps (fun t => t.cache = s.cache) tool) :
    Fetch.Extends (tool.on s).2.files s.cache (tool.on s).2.cache := by
  rw [h s rfl]
  exact .refl _ _

theorem extends_fetchWith {α : Type} {f : Files → Fetch.Cache → Fetch.Cache × α}
    (h : Fetch.Extends s.files s.cache (f s.files s.cache).1) :
    Fetch.Extends ((discard (fetchWith f)).on s).2.files s.cache
      ((discard (fetchWith f)).on s).2.cache := by
  simp only [fetchWith, on_discard, on_bind, on_get, on_set, on_pure]
  exact h

/-- Before texts are fetched, nothing is read. -/
theorem cache_of_asked [Library] {q : Query} {r : Except ServiceError (List Answer)}
    (h : (do logCall; ask q : Tool (List Answer)).on s = (r, t)) : t.cache = s.cache := by
  have hasked : Keeps (fun t => t.cache = s.cache) (do logCall; ask q : Tool (List Answer)) :=
    (aside_cache _).keeps_logged
      (Keeps.bind ((keeps_current _).bind fun _ => keeps_pure _) fun _ => keeps_lift _ _)
  have hcache := hasked s rfl
  rwa [h] at hcache

theorem extends_search [Library] (q : Query) (s : Service) :
    Fetch.Extends ((search q).on s).2.files s.cache ((search q).on s).2.cache := by
  refine ⟨fun p data h => (sourcesAside_remembers p data).keeps_search q s h, ?_⟩
  rcases search_cases q s with ⟨e, t, hasked, -, hon⟩ |
    ⟨answers, st, t, u, r, hasked, -, -, -, hattaches, hon, -⟩
  · rw [hon, ← cache_of_asked hasked]
    exact .refl _ _
  · rw [hon, ← cache_of_asked hasked, hattaches.files]
    exact hattaches.cache

/-- A request forgets no file, and what it remembers are the bytes of files. -/
theorem extends_tool [Library] (parse : Parser) (r : Request) (s : Service) :
    Fetch.Extends ((r.tool parse).on s).2.files s.cache ((r.tool parse).on s).2.cache := by
  cases r with
  | setUp repo language choice =>
    exact extends_of_keeps ((indifferent_cache _).keeps_setUp parse repo language choice).discard
  | clearSetup => exact .refl _ _
  | search q =>
    have hsearch := extends_search q s
    rw [Request.tool, on_discard]
    split <;> next h => rw [h] at hsearch; exact hsearch
  | takeNote site n => exact extends_of_keeps (keeps_cache_takeNote _ site n).discard
  | submit site n =>
    exact extends_of_keeps ((aside_cache _).keeps_logged (keeps_cache_takeNote _ site n)).discard
  | fetchText p => exact extends_fetchWith (Fetch.extends_text _ _ p)
  | fetchLines p start stop => exact extends_fetchWith (Fetch.extends_lines _ _ p start stop)
  | fetchBytes p start stop => exact extends_fetchWith (Fetch.extends_byteRange _ _ p start stop)
  | fetchProperBytes p start stop =>
    exact extends_fetchWith (Fetch.extends_properByteRange _ _ p start stop)
  | _ => exact extends_of_keeps ((aside_cache _).keeps_tool parse trivial)

/-! ## The first reading of a file -/

theorem attend_concat [Library] (parse : Parser) (files : Files) (requests : List Request)
    (r : Request) :
    attend parse files (requests ++ [r]) = ((r.tool parse).on (attend parse files requests)).2 := by
  rw [attend, serve_append]
  rfl

/-- Of some requests, one was the first to read a file, which had these bytes then. -/
def FirstRead [Library] (parse : Parser) (files : Files) (requests : List Request) (p : Path)
    (data : ByteArray) : Prop :=
  ∃ before r after, requests = before ++ r :: after ∧
    (attend parse files before).cache.get? p = none ∧
    (attend parse files (before ++ [r])).cache.get? p = some data ∧
    Fetch.bytesIn (attend parse files (before ++ [r])).files p = some data

/-- What is remembered of a file are the bytes that it had when it was first read. -/
theorem remembered_iff [Library] : (attend parse files requests).cache.get? p = some data ↔
    FirstRead parse files requests p data := by
  induction requests using List.reverseRecOn with
  | nil =>
    constructor
    · intro h
      cases h
    · rintro ⟨before, r, after, heq, -⟩
      simp at heq
  | append_singleton requests r ih =>
    have hstep := extends_tool parse r (attend parse files requests)
    rw [← attend_concat] at hstep
    -- what was remembered before the last request stays, and what is new was read by it
    constructor
    · intro h
      cases hbefore : (attend parse files requests).cache.get? p with
      | none => exact ⟨requests, r, [], rfl, hbefore, h, hstep.bytesIn hbefore h⟩
      | some old =>
        have hold : old = data := Option.some.inj ((hstep.kept p old hbefore).symm.trans h)
        obtain ⟨before, r', after, rfl, hread⟩ := ih.1 (hold ▸ hbefore)
        exact ⟨before, r', after ++ [r], by simp, hread⟩
    · rintro ⟨before, r', after, heq, hread⟩
      rcases List.eq_nil_or_concat after with rfl | ⟨after, last, rfl⟩
      · rw [heq]
        exact hread.2.1
      · rw [List.concat_eq_append, ← List.cons_append, ← List.append_assoc] at heq
        obtain ⟨hrequests, -⟩ := List.append_inj' heq rfl
        exact hstep.kept p data (ih.2 ⟨before, r', after, hrequests, hread⟩)

/-! ## Indexing again -/

/-- Setting up a repository makes its index from its files: its language is known, and there is no
cache. -/
def Indexes (s : Service) (repo : Path) (language : Text) (choice : CacheChoice) : Prop :=
  ∃ l f, Language.byName? language = some l ∧ cacheFormat s.files repo choice = .ok f ∧
    s.files.pathExists (cachePath repo f) = false

theorem lasting_unsourced : Linked.Lasting (fun _ d => d.source = none) fun _ _ => True where
  definition_bare _ := rfl
  definition_absorb h _ := h
  reference_bare _ := trivial
  reference_absorb _ _ := trivial

/-- A repository that has just been indexed has no source texts. -/
theorem setup_of_indexes [Library] {repo : Path} {language : Text} {choice : CacheChoice}
    (h : s.Indexes repo language choice) (parse : Parser) :
    ∃ st, ((setUp parse repo language choice).on s).2.setup = some st ∧ st.repo = repo ∧
      st.indexer.Keyed ∧ st.indexer.Each (fun _ d => d.source = none) fun _ _ => True := by
  obtain ⟨l, f, hl, hf, hnew⟩ := h
  refine ⟨⟨((Indexer.start l .linked true).indexProject parse s.files repo).1, repo, choice,
    s.nextSerial⟩, ?_, rfl, Indexer.Keyed.indexProject (.start l true) parse s.files repo,
    Indexer.Each.indexProject lasting_unsourced (.start l true) parse s.files repo⟩
  rw [on_setUp hl, hf]
  simp only [lift, pure_bind, hnew, Bool.false_eq_true, if_false]
  rw [on_bind_pure, setup_fillCache]

/-- A search that answers has found the files of all definitions. -/
theorem checkFiles_of_search [Library] {st : Setup} {q : Query} {answers : List Answer}
    (hasked : (do logCall; ask q : Tool (List Answer)).on s = (.ok answers, t))
    (hst : t.setup = some st) {found : List Notice × List Answer}
    (h : (search q).on s = (.ok found, u)) : checkFiles u.files st.repo answers = .ok () := by
  obtain ⟨notices, v, hfetched, -⟩ := exists_attachAll st.repo answers t
  rw [search_eq, on_bind, hasked] at h
  simp only [on_bind, on_current, hst, hfetched, on_get, on_lift] at h
  cases hcheck : checkFiles v.files st.repo answers with
  | error e => rw [hcheck] at h; cases h
  | ok _ => rw [hcheck] at h; cases h; exact hcheck

theorem resolve_of_checkFiles {fs : Files} {repo : Path} {answers : List Answer}
    (h : checkFiles fs repo answers = .ok ()) {a : Answer} (ha : a ∈ answers) {d : Definition}
    (hd : d ∈ a.2.definitions) : ∃ file, resolve fs repo d.location.file = .ok file := by
  have hmem : d ∈ answers.flatMap fun a => a.2.definitions := List.mem_flatMap.2 ⟨a, ha, hd⟩
  unfold checkFiles at h
  generalize answers.flatMap (fun a => a.2.definitions) = ds at h hmem
  induction ds with
  | nil => cases hmem
  | cons d' ds ih =>
    rw [List.forM] at h
    obtain ⟨_, hd', hrest⟩ := ok_of_bind h
    rcases List.mem_cons.1 hmem with rfl | hmem
    · obtain ⟨file, hfile, -⟩ := ok_of_map hd'
      exact ⟨file, hfile⟩
    · exact ih hrest hmem

theorem source_of_unsourced {x : Indexer} (hkeyed : x.Keyed)
    (h : x.Each (fun _ d => d.source = none) fun _ _ => True) {symbol : Symbol} {l : Location}
    {d : Definition} (hd : x.index.definitionAt? symbol l = some d) : d.source = none := by
  obtain ⟨ix, hix, hk⟩ := hkeyed
  obtain ⟨ix', hix', hnone⟩ := h
  cases hix.symm.trans hix'
  rw [hix, hk.definitionAt?_linked] at hd
  exact hnone.definition symbol l d hd

theorem source_withText {texts : Location → Option Text} {d : Definition} (h : d.source = none) :
    (withText texts d).source = texts d.location := by
  unfold withText
  split <;> next htext => simp only [htext, h]

theorem location_withText (texts : Location → Option Text) (d : Definition) :
    (withText texts d).location = d.location := by
  unfold withText
  split <;> rfl

/-- After a repository was indexed, a search tells the texts of places in files as memory has
them. -/
theorem source_of_search [Library] {repo : Path} {language : Text} {choice : CacheChoice}
    (hindexes : s.Indexes repo language choice)
    (ht : ((setUp parse repo language choice).on s).2 = t) {q : Query} {notices : List Notice}
    {found : List Answer} (hu : (search q).on t = (.ok (notices, found), u)) {a : Answer}
    (ha : a ∈ found) {d : Definition} (hd : d ∈ a.2.definitions) (hspans : d.location.Spans) :
    ∃ file, resolve u.files repo d.location.file = .ok file ∧
      d.source = (Fetch.bytes u.files s.cache file).2.toOption.bind d.location.textIn := by
  obtain ⟨st, hst, rfl, hkeyed, hunsourced⟩ := setup_of_indexes hindexes parse
  rw [ht] at hst
  have hcache : t.cache = s.cache := by
    rw [← ht]
    exact (indifferent_cache _).keeps_setUp parse st.repo language choice s rfl
  rcases search_cases q t with ⟨e, t₀, -, -, hon⟩ |
    ⟨answers, st', t₀, u₀, r, hasked, hst', hst₀, hanswer, hattaches, hon, hfound⟩
  · cases hu.symm.trans hon
  · cases hst.symm.trans hst'
    obtain ⟨rfl, rfl⟩ := Prod.mk.inj (hu.symm.trans hon)
    obtain rfl := hfound notices found rfl
    obtain ⟨a₀, ha₀, rfl⟩ := List.mem_map.1 ha
    obtain ⟨d₀, hd₀, rfl⟩ := List.mem_map.1 hd
    rw [location_withText] at hspans ⊢
    -- the index is new, so a text in the answers has just been fetched
    have hat := definitionAt?_of_answer hkeyed hanswer ha₀ hd₀
    obtain ⟨file, hfile⟩ := resolve_of_checkFiles (checkFiles_of_search hasked hst₀ hu) ha₀ hd₀
    refine ⟨file, hfile, ?_⟩
    rw [hattaches.files] at hfile ⊢
    rw [source_withText (source_of_unsourced hkeyed hunsourced hat), sourceAt, hfile,
      cache_of_asked hasked, hcache]
    exact Fetch.byteRange_of_spans hspans

/-- After any requests, let `setUp` make an index (`Indexes`) and `search` answer. The source of a
definition in the answers is `textIn` the bytes that its file had when a request first read it
(`FirstRead`), or that it has now if none has. So it is the text of its place in the file now iff
that was the text at the `FirstRead`, if there was one. -/
theorem search_current_iff [Library] {parse : Parser} {files : Files} {requests : List Request}
    (hs : attend parse files requests = s) {repo : Path} {language : Text} {choice : CacheChoice}
    (hindexes : s.Indexes repo language choice)
    (ht : ((setUp parse repo language choice).on s).2 = t) {q : Query} {notices : List Notice}
    {found : List Answer} (hu : (search q).on t = (.ok (notices, found), u)) :
    ∀ symbol i, (symbol, i) ∈ found → ∀ d ∈ i.definitions, d.location.Spans →
      ∃ file, resolve u.files repo d.location.file = .ok file ∧
        (∀ old, FirstRead parse files requests file old → d.source = d.location.textIn old) ∧
        ((∀ old, ¬ FirstRead parse files requests file old) →
          d.source = (Fetch.bytesIn u.files file).bind d.location.textIn) ∧
        ∀ data text, Fetch.bytesIn u.files file = some data → d.location.textIn data = some text →
          (d.source = some text ↔
            ∀ old, FirstRead parse files requests file old → d.location.textIn old = some text) := by
  intro symbol i hi d hd hspans
  obtain ⟨file, hfile, hsource⟩ := source_of_search hindexes ht hu hi hd hspans
  have hremembered : ∀ old, s.cache.get? file = some old ↔
      FirstRead parse files requests file old :=
    fun old => hs ▸ remembered_iff
  refine ⟨file, hfile, ?_⟩
  simp only [← hremembered]
  cases hread : s.cache.get? file with
  | some old =>
    simp only [Fetch.bytes_of_some hread, Except.toOption, Option.bind_some] at hsource
    refine ⟨?_, fun hnone => absurd rfl (hnone old), fun data text _ _ => ?_⟩
    · rintro _ ⟨⟩
      exact hsource
    · rw [hsource]
      simp only [Option.some.injEq, forall_eq']
  | none =>
    rw [Fetch.bytes_of_none hread] at hsource
    refine ⟨?_, fun _ => hsource, fun data text hdata htext => iff_of_true ?_ ?_⟩
    · rintro old ⟨⟩
    · rw [hsource, hdata, Option.bind_some, htext]
    · rintro old ⟨⟩

/-- A function is searched for, then its file is changed and the cache of its index emptied. -/
def editRequests : List Request := setUpFirst ++
  [.search (.byKey twinSite.symbol),
   .change fun fs => (fs.after
     (fs.write (.ofText "a/m.py") (.bytes "def f():\n    next\n".toUTF8))).1,
   .change fun fs => (fs.after (fs.remove (cachePath (.ofText "a") .document))).1,
   .change fun fs => (fs.after
     (fs.remove ((cacheDirectory (.ofText "a")).child "function_calls.log"))).1]

/-- The service after these requests. -/
def edited : Service :=
  letI := Library.standard
  attend (fun _ => twinTree) (.empty []) editRequests

/-- The service with the changed file indexed. -/
def reindexed : Service :=
  letI := Library.standard
  ((setUp (fun _ => twinTree) (.ofText "a") "python" .document).on edited).2

/-- The search tells the text that the function had before its file was changed. -/
theorem search_current_iff_edited :
    letI := Library.standard
    edited.Indexes (.ofText "a") "python" .document ∧ twinSite.location.Spans ∧
    ∃ notices u file old,
      (search (.byKey twinSite.symbol)).on reindexed = (.ok (notices, [(twinSite.symbol,
        ⟨[⟨twinSite.location, none, [], none, some "def f():\n    pass"⟩], []⟩)]), u) ∧
      resolve u.files (.ofText "a") twinSite.location.file = .ok file ∧
      (Fetch.bytesIn u.files file).bind twinSite.location.textIn =
        some ("def f():\n    next" : Text) ∧
      FirstRead (fun _ => twinTree) (.empty []) editRequests file old ∧
      twinSite.location.textIn old ≠ some ("def f():\n    next" : Text) := by
  let _ := Library.standard
  have hindexes : edited.Indexes (.ofText "a") "python" .document :=
    ⟨.python, .document, rfl, rfl, by decide +kernel⟩
  have hspans : twinSite.location.Spans := ⟨by decide, by decide⟩
  obtain ⟨hfound, hfile, hnow⟩ :
      ((search (.byKey twinSite.symbol)).on reindexed).1.toOption.map Prod.snd =
        some [(twinSite.symbol,
          ⟨[⟨twinSite.location, none, [], none, some "def f():\n    pass"⟩], []⟩)] ∧
      resolve ((search (.byKey twinSite.symbol)).on reindexed).2.files (.ofText "a")
        twinSite.location.file = .ok (.ofText "/a/m.py") ∧
      (Fetch.bytesIn ((search (.byKey twinSite.symbol)).on reindexed).2.files
        (.ofText "/a/m.py")).bind twinSite.location.textIn =
          some ("def f():\n    next" : Text) := by decide +kernel
  obtain ⟨⟨notices, found⟩, hr, hanswers⟩ := Option.map_eq_some_iff.1 hfound
  have hu := on_of_toOption hr
  obtain rfl : found = _ := hanswers
  obtain ⟨file, hfile', -, -, hiff⟩ := search_current_iff (s := edited) rfl hindexes rfl hu
    twinSite.symbol _ (.head _) _ (.head _) hspans
  obtain rfl : file = .ofText "/a/m.py" := Except.ok.inj (hfile'.symm.trans hfile)
  obtain ⟨data, hdata, htext⟩ := Option.bind_eq_some_iff.1 hnow
  have hstale : ¬ ∀ old, FirstRead (fun _ => twinTree) (.empty []) editRequests
      (.ofText "/a/m.py") old → twinSite.location.textIn old = some ("def f():\n    next" : Text) :=
    fun hsame => absurd ((hiff data _ hdata htext).2 hsame) (by decide)
  push Not at hstale
  obtain ⟨old, hfirst, hne⟩ := hstale
  exact ⟨hindexes, hspans, notices, _, _, old, hu, hfile, hnow, hfirst, hne⟩

end Service

end CallAtlas
