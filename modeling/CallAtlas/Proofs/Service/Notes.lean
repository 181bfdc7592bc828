import CallAtlas.Proofs.Service.Requests
import CallAtlas.Proofs.Store.Saved

/-! # Where notes go

A note on a definition goes to the index that its task was made for. If another index has been set
up since, the note is in neither of them, though the index that is set up is kept again. Whether a
note is found afterwards is told by `noteOn_noteInto`, and what is found is also in the document
(`tellsNote_of_noteOn`). That the index is kept as a document, in files with one device, holds after
all requests for notes (`documented_attend`).

* `takeNote_kept_iff`: a note that has been taken is kept, in the index and in its document, iff it
  is not one for another index or was there before; and it is taken wherever there is room. -/

namespace CallAtlas

/-- The document at a path tells a note on a definition, whose place it tells by its text. -/
def Files.TellsNote [Library] (fs : Files) (p : Path) (site : Site) (n : Note) : Prop :=
  ∃ text data i d, fs.at? p = some (.regular (.bytes (String.toUTF8 text))) ∧
    Store.Document.parse text = some data ∧ (site.symbol, i) ∈ data.entries ∧
    d ∈ i.definitions ∧ d.location = site.location.reread ∧ d.note = some n

namespace Service

variable {s : Service} {st : Setup} {site : Site} {n : Note}

/-! ## The index -/

/-- A note goes to the definition that it is on, which is made if there is none, and to nothing
else. -/
theorem definitionAt?_noteInto (h : st.indexer.Keyed) (site : Site) (n : Note) (symbol : Symbol)
    (l : Location) : (noteInto st.serial site n st).indexer.index.definitionAt? symbol l =
      if site.symbol = symbol ∧ site.location = l then
        some (((st.indexer.index.definitionAt? symbol l).getD (.bare l)).absorb
          (noted site.location n))
      else st.indexer.index.definitionAt? symbol l := by
  obtain ⟨ix, hx, hk⟩ := h
  simp only [noteInto, if_true, Indexer.addDefinition, hx, Index.addDefinition]
  rw [Linked.Keyed.definitionAt?_linked (hk.addDefinition Linked.lasting_keyed _ _),
    hk.definitionAt?_linked]
  exact ix.definitionAt?_addDefinition site.symbol symbol l rfl

/-- A note is found in the index that it was meant for, and changes nothing in any other. -/
theorem noteOn_noteInto (h : st.indexer.Keyed) (serial : Nat) (site : Site) (n : Note) :
    noteOn (noteInto serial site n st).indexer.index site =
      if st.serial = serial then some n else noteOn st.indexer.index site := by
  split
  · next hserial =>
    rw [← hserial, noteOn, definitionAt?_noteInto h, if_pos ⟨rfl, rfl⟩]
    rfl
  · next hserial => rw [noteInto, if_neg hserial]

/-! ## The document -/

/-- A definition of an index is told by its document. -/
theorem mem_document [Library] {x : Indexer} (hx : x.Keyed) {symbol : Symbol} {l : Location}
    {d : Definition}
    (hd : x.index.definitionAt? symbol l = some d) :
    ∃ data i, Store.Document.parse (Store.Document.render x.index.snapshot) = some data ∧
      (symbol, i) ∈ data.entries ∧ d.reread ∈ i.definitions ∧ d.reread.location = l.reread := by
  obtain ⟨ix, hix, hk⟩ := hx
  rw [hix, hk.definitionAt?_linked] at hd
  rw [hix]
  obtain ⟨i, hi, hdi⟩ := Linked.mem_snapshot_of_definitionAt? hd
  refine ⟨_, i.reread, Store.Document.parse_render (s := ix.snapshot) rfl, ?_, ?_, ?_⟩
  · exact List.mem_map.2 ⟨(symbol, i), hi, rfl⟩
  · exact List.mem_map.2 ⟨d, hdi, rfl⟩
  · exact congrArg Location.reread (hk.definition _ _ _ hd)

/-- What is noted in an index is told by its document. -/
theorem tellsNote_of_noteOn [Library] {fs : Files} {p : Path} {x : Indexer} (hx : x.Keyed)
    (hfile : fs.at? p =
      some (.regular (.bytes (Store.Document.render x.index.snapshot).toUTF8)))
    (hnote : noteOn x.index site = some n) : fs.TellsNote p site n := by
  obtain ⟨d, hd, hdn⟩ := Option.bind_eq_some_iff.1 hnote
  obtain ⟨data, i, hparse, hi, hdi, hl⟩ := mem_document hx hd
  exact ⟨_, data, i, d.reread, hfile, hparse, hi, hdi, hl, hdn⟩

/-- An index that has been put into a cache of documents has been written, and nothing but the files
has changed. -/
theorem write_of_persist [Library] {a : Text} {s' : Service} (h : persist.on s = (.ok a, s'))
    (hst : s.setup = some st) (hf : cacheFormat s.files st.repo st.choice = .ok .document) :
    s' = { s with files := s'.files } ∧ s.files.write (cachePath st.repo .document)
      (.bytes (Store.Document.render st.indexer.index.snapshot).toUTF8) = .ok s'.files := by
  simp only [persist, keepFiles, on_bind, on_current, hst, on_get, hf, lift, on_pure,
    on_modify] at h
  cases hsave : st.indexer.save s.files .document (cachePath st.repo .document) with
  | mk fs e =>
    rw [hsave] at h
    cases e with
    | some e => cases h
    | none =>
      cases h
      exact ⟨by rw [hst], Indexer.write_of_save hsave⟩

/-- An index that has been put into the cache is there as a document, and nothing else has
changed. -/
theorem persist_ok [Library] {a : Text} {s' : Service} (h : persist.on s = (.ok a, s'))
    (hdev : s.files.OneDevice) (hst : s.setup = some st) (hchoice : st.choice = .document) :
    s' = { s with files := s'.files } ∧ s'.files.at? (cachePath st.repo .document) =
      some (.regular (.bytes (Store.Document.render st.indexer.index.snapshot).toUTF8)) := by
  obtain ⟨hs', hwrite⟩ := write_of_persist h hst (by rw [hchoice]; rfl)
  exact ⟨hs', Files.at?_write (by simp [Text.ofString_inj]) (by simp [Text.ofString_inj]) hdev
    hwrite⟩

/-! ## Services with documents -/

/-- The repository that is set up is kept as a document, the files have one device, and notes are
taken again. -/
structure Documented (s : Service) : Prop where
  choice : ∀ st ∈ s.setup, st.choice = .document
  files : s.files.OneDevice
  resubmit : s.todo.resubmit = true

theorem Documented.start {files : Files} (h : files.OneDevice) : (start files).Documented :=
  ⟨nofun, h, rfl⟩

theorem Documented.withFiles (h : s.Documented) {fs : Files} (hfs : fs.OneDevice) :
    { s with files := fs }.Documented :=
  ⟨h.choice, hfs, h.resubmit⟩

theorem Documented.withSetup (h : s.Documented) (hst : st.choice = .document) (x : Indexer)
    (serial : Nat) :
    { s with setup := some { st with indexer := x }, nextSerial := serial }.Documented := by
  refine ⟨fun st' hst' => ?_, h.files, h.resubmit⟩
  cases hst'
  exact hst

theorem keeps_keepFiles {ε : Type} (wrap : ε → ServiceError) {attempt : Files × Option ε}
    (h : attempt.1.OneDevice) : Keeps Documented (keepFiles wrap attempt) := by
  refine (keeps_modify fun s hs => hs.withFiles h).bind fun _ => ?_
  split
  · exact keeps_pure _
  · exact keeps_throw _

theorem keeps_loadCache [Library] (h : st.choice = .document) :
    Keeps Documented (loadCache st .document) := by
  refine keeps_get_bind fun s hs => ?_
  have hfs : (st.indexer.load s.files .document (cachePath st.repo .document)).1 = s.files :=
    Indexer.files_of_load
  split
  · next fs x heq =>
    rw [heq] at hfs
    cases hfs
    exact keeps_modify fun t ht => (ht.withFiles hs.files).withSetup h _ _
  · next fs e heq =>
    rw [heq] at hfs
    cases hfs
    exact (keeps_modify fun t ht => ht.withFiles hs.files).bind fun _ => keeps_throw _

theorem keeps_makeAndSave [Library] {fs : Files} (h : fs.OneDevice) (x : Indexer) (p : Path)
    (e : ServiceError) : Keeps Documented (do
      keepFiles (fun _ => e) (fs.makeDirectories p.parent)
      keepFiles (fun _ => e) (x.save (← get).files .document p)) :=
  (keeps_keepFiles _ (h.makeDirectories _)).bind fun _ =>
    keeps_get_bind fun _ hs => keeps_keepFiles _ (hs.files.save x p)

theorem keeps_fillCache [Library] (parse : Parser) (h : st.choice = .document) :
    Keeps Documented (fillCache parse st .document) := by
  unfold fillCache
  refine keeps_get_bind fun s hs => ?_
  refine (keeps_modify fun t ht => ht.withSetup h _ _).bind fun _ => ?_
  have hsave := keeps_makeAndSave hs.files (st.indexer.indexProject parse s.files st.repo).1
    (cachePath st.repo .document) (.persistFailed (cachePath st.repo .document))
  split
  · exact (keeps_throw _).bind fun _ => hsave
  · exact hsave

theorem keeps_setUp [Library] (parse : Parser) (repo : Path) (language : Text) :
    Keeps Documented (setUp parse repo language .document) := by
  unfold setUp
  split
  · exact keeps_throw _
  · next l _ =>
    refine keeps_get_bind fun s _ => ?_
    have hst : (⟨.start l .linked true, repo, .document, s.nextSerial⟩ : Setup).choice =
        .document := rfl
    refine (keeps_modify fun t ht => ht.withSetup hst _ _).bind fun _ => ?_
    refine keeps_get_bind fun t _ => ?_
    simp only [cacheFormat, lift, pure_bind]
    split
    · exact (keeps_loadCache rfl).bind fun _ => keeps_pure _
    · exact (keeps_fillCache parse rfl).bind fun _ => keeps_pure _

theorem keeps_callGraph : Keeps Documented callGraph := by
  refine keeps_get_bind fun s _ => ?_
  split
  · exact keeps_pure _
  · refine Keeps.bind ((keeps_current _).bind fun _ => keeps_pure _) fun ix => ?_
    refine (keeps_lift _ _).bind fun g => ?_
    exact (keeps_modify fun t ht => ⟨ht.choice, ht.files, ht.resubmit⟩).bind fun _ => keeps_pure _

theorem keeps_sitesBy (ix : Index) (policy : Policy) : Keeps Documented (sitesBy ix policy) := by
  have horder (d : Graph.Direction) : Keeps Documented (order d) :=
    keeps_callGraph.bind fun _ => keeps_lift _ _
  cases policy with
  | arbitrary => exact keeps_pure _
  | calleesFirst => exact (horder _).bind fun _ => keeps_pure _
  | callersFirst => exact (horder _).bind fun _ => keeps_pure _

theorem keeps_fillTodo (policy : Policy) (skipNoted : Bool) :
    Keeps Documented (fillTodo policy skipNoted) := by
  refine (keeps_current _).bind fun st => (keeps_sitesBy _ policy).bind fun sites => ?_
  exact keeps_modify fun s hs =>
    ⟨hs.choice, hs.files, (resubmit_foldl_enqueue ..).trans hs.resubmit⟩

theorem keeps_persist [Library] : Keeps Documented persist := by
  intro s hs
  rw [persist, on_bind, on_current]
  cases hst : s.setup with
  | none => exact hs
  | some st =>
    refine keeps_get_bind (fun t ht => ?_) s hs
    rw [hs.choice st hst]
    exact (keeps_keepFiles _ (ht.files.save _ _)).bind fun _ => keeps_pure _

theorem choice_noteInto (st : Setup) (serial : Nat) (site : Site) (n : Note) :
    (noteInto serial site n st).choice = st.choice := by
  unfold noteInto
  split <;> rfl

theorem repo_noteInto (st : Setup) (serial : Nat) (site : Site) (n : Note) :
    (noteInto serial site n st).repo = st.repo := by
  unfold noteInto
  split <;> rfl

theorem keeps_takeNote [Library] (site : Site) (n : Note) : Keeps Documented (takeNote site n) := by
  intro s hs
  have hresubmit := (resubmit_settleTask s.todo site n).trans hs.resubmit
  rw [on_takeNote hs.resubmit]
  split
  · exact ⟨hs.choice, hs.files, hresubmit⟩
  · next st hst =>
    have hafter : { s with todo := settleTask s.todo site n }.Documented :=
      ⟨hs.choice, hs.files, hresubmit⟩
    exact keeps_persist.discard.bind (fun _ => keeps_pure _) _
      (hafter.withSetup ((choice_noteInto ..).trans (hs.choice st hst)) _ _)

/-- A request for a note or for the repository to work on, which is kept as a document. Between two
of them anything can happen to the files that makes no device. -/
def Request.ForNotes : Request → Prop
  | .change files => ∀ fs : Files, fs.OneDevice → (files fs).OneDevice
  | .setUp _ _ choice => choice = .document
  | .fillTodo .. | .takeNote .. => True
  | _ => False

theorem keeps_documented_tool [Library] (parse : Parser) {r : Request} (hr : r.ForNotes) :
    Keeps Documented (r.tool parse) := by
  cases r with
  | change files => exact keeps_modify fun s hs => hs.withFiles (hr s.files hs.files)
  | setUp repo language choice =>
    obtain rfl : choice = .document := hr
    exact (keeps_setUp parse repo language).discard
  | fillTodo policy skipNoted => exact keeps_fillTodo policy skipNoted
  | takeNote site n => exact (keeps_takeNote site n).discard
  | _ => exact hr.elim

theorem documented_attend [Library] (parse : Parser) {files : Files} (hfiles : files.OneDevice)
    {requests : List Request} (h : ∀ r ∈ requests, r.ForNotes) :
    (attend parse files requests).Documented :=
  keeps_serve (fun r hr => keeps_documented_tool parse (h r hr)) (.start hfiles)

/-! ## Notes that are kept -/

theorem addressee_eq_iff {list : TodoList Site Note Nat} :
    addressee list site st = st.serial ↔
      ∀ task, list.find? site = some task → task.detail = st.serial := by
  cases h : list.find? site <;> simp [addressee, h]

theorem on_note (hst : s.setup = some st) :
    (note site).on s = (.ok (noteOn st.indexer.index site), s) := by
  simp [note, index, hst]

/-- After a note has been taken, the index that is set up has it if it was meant for this index, and
stands in the cache either way. -/
theorem takeNote_ok [Library] (hs : s.Documented) {answer : Text} {s' : Service}
    (h : (takeNote site n).on s = (.ok answer, s')) :
    ∃ st st', s.setup = some st ∧ st' = noteInto (addressee s.todo site st) site n st ∧
      s'.setup = some st' ∧ s'.files.at? (cachePath st.repo .document) =
        some (.regular (.bytes (Store.Document.render st'.indexer.index.snapshot).toUTF8)) := by
  rw [on_takeNote hs.resubmit] at h
  cases hst : s.setup with
  | none => rw [hst] at h; cases h
  | some st =>
    refine ⟨st, _, rfl, rfl, ?_⟩
    have hchoice : (noteInto (addressee s.todo site st) site n st).choice = .document :=
      (choice_noteInto ..).trans (hs.choice st hst)
    simp only [hst, on_bind, on_discard] at h
    split at h
    · next u t ht =>
      split at ht
      · next hp =>
        cases ht
        cases h
        obtain ⟨hs', hfile⟩ := persist_ok hp hs.files rfl hchoice
        exact ⟨by rw [hs'], repo_noteInto st _ site n ▸ hfile⟩
      · cases ht
    · cases h

/-- Where there is room for the cache and the index can be encoded, a note is taken, whichever
symbols were loaded. -/
theorem takeNote_answers [Library] (hmembers : Library.KeepsMembers) (hs : s.Documented)
    (hst : s.setup = some st) (hroom : s.files.HasRoom (cachePath st.repo .document))
    (hwhole : ∀ t ∈ (noteInto (addressee s.todo site st) site n st).indexer.index.snapshot.texts,
      t.hasHalf = false) :
    ∃ answer s', (takeNote site n).on s = (.ok answer, s') := by
  have hchoice : (noteInto (addressee s.todo site st) site n st).choice = .document :=
    (choice_noteInto ..).trans (hs.choice st hst)
  obtain ⟨fs', hsaved, -⟩ := Store.saveDocument_written hroom (Index.metadata_snapshot _) hwhole
  have hsave : (noteInto (addressee s.todo site st) site n st).indexer.save s.files .document
      (cachePath st.repo .document) = (fs', none) := by
    rw [Indexer.save_eq hmembers, Store.save, hsaved]
  rw [on_takeNote hs.resubmit, hst]
  simp only [on_bind, on_discard, persist, keepFiles, on_current, on_get, hchoice, cacheFormat,
    repo_noteInto, hsave, lift, on_pure, on_modify]
  exact ⟨_, _, rfl⟩

/-- A repository whose cache has a document of an index is set up with that index. -/
theorem on_setUp_of_document [Library] (hdepth : ∀ d ∈ Library.limits.depth, 10 ≤ d)
    {language : Text} {l : Language} (hl : Language.byName? language = some l) {data : Snapshot}
    (hmeta : data.metadata = none)
    (hdata : ∀ l ∈ data.locations, l.file.Named ∧ l.Fits Library.limits.digits) {repo : Path}
    (hfile : s.files.at? (cachePath repo .document) =
      some (.regular (.bytes (Store.Document.render data).toUTF8)))
    {ix : Index} (hix : (Index.empty .linked).load data = .ok ix) (parse : Parser) :
    ∃ x : Indexer, x.index = ix ∧ ∃ answer, (setUp parse repo language .document).on s =
      (.ok answer, { s with
        setup := some ⟨x, repo, .document, s.nextSerial⟩, nextSerial := s.nextSerial + 1 }) := by
  have hexists : s.files.pathExists (cachePath repo .document) = true := by
    rw [Files.pathExists, hfile]
    rfl
  have hdocument := Store.loadDocument_written hdepth hmeta (fun l h => (hdata l h).1)
    (fun l h => (hdata l h).2) hfile
  have hload : (Indexer.start l .linked true).load s.files .document (cachePath repo .document) =
      (s.files, .ok ⟨l, ix, true, .ofIndex ix⟩) := by
    simp only [Indexer.load, Store.loadIndex, Store.load, hdocument]
    rw [show (Indexer.start l .linked true).index.kind = .linked from rfl, hix]
    rfl
  refine ⟨⟨l, ix, true, .ofIndex ix⟩, rfl, ?_⟩
  rw [on_setUp hl]
  simp only [cacheFormat, lift, pure_bind, hexists, if_true, loadCache, on_bind, on_get, hload,
    on_modify]
  exact ⟨_, rfl⟩

/-- After all requests `ForNotes`, a note that `takeNote` has answered is found in the index that is
set up and told by its document (`TellsNote`) iff every task for its definition on the list was made
for this index, or the same note was there before. Where symbols keep their members
(`Library.KeepsMembers`), `takeNote` answers if there is room for the document and no text holds
half of a pair, also if the index was loaded from its cache. -/
theorem takeNote_kept_iff [Library] (parse : Parser) {files : Files} (hfiles : files.OneDevice)
    {requests : List Request} (h : ∀ r ∈ requests, r.ForNotes) (site : Site) (n : Note) :
    (∀ answer s', (takeNote site n).on (attend parse files requests) = (.ok answer, s') →
      ∃ st, (attend parse files requests).setup = some st ∧
        ((((note site).on s').1 = .ok (some n) ∧
            s'.files.TellsNote (cachePath st.repo .document) site n) ↔
          (∀ task, (attend parse files requests).todo.find? site = some task →
            task.detail = st.serial) ∨ noteOn st.indexer.index site = some n)) ∧
    (Library.KeepsMembers → ∀ st, (attend parse files requests).setup = some st →
      (attend parse files requests).files.HasRoom (cachePath st.repo .document) →
      (∀ t ∈ (noteInto (addressee (attend parse files requests).todo site st) site n
        st).indexer.index.snapshot.texts, t.hasHalf = false) →
      ∃ answer s', (takeNote site n).on (attend parse files requests) = (.ok answer, s')) := by
  have hs := documented_attend parse hfiles h
  have hindexed := indexed_attend parse files requests
  generalize attend parse files requests = s at hs hindexed ⊢
  refine ⟨fun answer s' hanswer => ?_, fun hmembers st hst hroom hwhole =>
    takeNote_answers hmembers hs hst hroom hwhole⟩
  obtain ⟨st, st', hst, hnew, hset, hfile⟩ := takeNote_ok hs hanswer
  have hkeyed : st'.indexer.Keyed := hnew ▸ keyed_noteInto (hindexed st hst) _ site n
  have hnote : noteOn st'.indexer.index site = if st.serial = addressee s.todo site st then some n
      else noteOn st.indexer.index site := hnew ▸ noteOn_noteInto (hindexed st hst) _ site n
  have hkept : noteOn st'.indexer.index site = some n ↔
      (∀ task, s.todo.find? site = some task → task.detail = st.serial) ∨
        noteOn st.indexer.index site = some n := by
    rw [hnote, ← addressee_eq_iff]
    by_cases hfresh : addressee s.todo site st = st.serial
    · simp [hfresh]
    · simp [hfresh, Ne.symm hfresh]
  refine ⟨st, hst, ?_⟩
  rw [on_note hset, ← hkept]
  refine ⟨fun hboth => Except.ok.inj hboth.1, fun hn => ⟨congrArg _ hn, ?_⟩⟩
  exact tellsNote_of_noteOn hkeyed hfile hn

/-! A repository is set up from its cache. Another two have the same file: notes are requested for
the first, and then the second is set up. -/

def twinData : Snapshot :=
  ⟨Linked.kindName, [(.function "f", ⟨[.bare twinSite.location], []⟩)], none⟩

def cachedFiles : Files :=
  (((Files.empty []).put ["a"] .directory).put ["a", ".code_index.cache"] .directory).put
    ["a", ".code_index.cache", "index.json"]
    (.regular (.bytes (Store.Document.render twinData).toUTF8))

theorem oneDevice_cachedFiles : cachedFiles.OneDevice :=
  (((Files.OneDevice.empty []).put _ (by simp)).put _ (by simp)).put _ (by simp)

theorem at?_cachedFiles : cachedFiles.at? (cachePath (.ofText "a") .document) =
    some (.regular (.bytes (Store.Document.render twinData).toUTF8)) := by rfl

theorem hasRoom_cachedFiles : cachedFiles.HasRoom (cachePath (.ofText "a") .document) :=
  ⟨by rfl, by rfl, by decide +kernel, by rfl, by rw [at?_cachedFiles]; nofun⟩

/-- The repository is set up with the index of its cache, and nothing else changes. -/
theorem attend_cached : letI := Library.standard
    ∃ x : Indexer, x.index = .linked (Linked.empty.load twinData) ∧
      attend (fun _ => twinTree) cachedFiles [.setUp (.ofText "a") "python" .document] =
        { start cachedFiles with
          setup := some ⟨x, .ofText "a", .document, 0⟩, nextSerial := 1 } := by
  let _ := Library.standard
  have hlocation : twinSite.location.file.Named ∧ twinSite.location.Fits (some 4300) := by
    refine ⟨⟨_, rfl⟩, ?_⟩
    rintro n hn _ ⟨⟩
    revert n
    decide +kernel
  have hdata : ∀ l ∈ twinData.locations, l.file.Named ∧ l.Fits (some 4300) := by
    simp only [twinData, Snapshot.locations, Info.locations, Definition.locations, Definition.bare,
      List.flatMap_cons, List.flatMap_nil, List.map_nil, List.append_nil, List.forall_mem_cons,
      List.not_mem_nil, false_imp_iff, implies_true, and_true]
    exact hlocation
  have hpython : Language.byName? "python" = some Language.python := rfl
  obtain ⟨x, hx, answer, hon⟩ := on_setUp_of_document (s := start cachedFiles)
    (by rintro d ⟨⟩; decide) hpython rfl hdata at?_cachedFiles rfl (fun _ => twinTree)
  refine ⟨x, hx, ?_⟩
  rw [attend, serve_cons, serve_nil, Request.tool, on_discard, hon]
  rfl

def twinRequests (more : List Request) : List Request :=
  let source := FileContent.bytes "def f():\n    pass\n".toUTF8
  .change (fun fs => (fs.makeDirectories (.ofText "a")).1) ::
  .change (fun fs => (fs.after (fs.write (.ofText "a/m.py") source)).1) ::
  .change (fun fs => (fs.makeDirectories (.ofText "b")).1) ::
  .change (fun fs => (fs.after (fs.write (.ofText "b/m.py") source)).1) ::
  .setUp (.ofText "a") "python" .document :: .fillTodo .arbitrary false :: more

theorem forNotes_twinRequests {more : List Request} (h : ∀ r ∈ more, r.ForNotes) :
    ∀ r ∈ twinRequests more, r.ForNotes := by
  have hmake (p : Path) : Request.ForNotes (.change fun fs => (fs.makeDirectories p).1) :=
    fun _ hfs => hfs.makeDirectories p
  have hwrite (p : Path) (content : FileContent) :
      Request.ForNotes (.change fun fs => (fs.after (fs.write p content)).1) :=
    fun _ hfs => hfs.after fun _ hw => hfs.write hw
  simp only [twinRequests, List.forall_mem_cons]
  exact ⟨hmake _, hwrite _ _, hmake _, hwrite _ _, rfl, trivial, h⟩

/-- The service with the first repository set up and notes requested, after more requests. -/
def twinService (more : List Request) : Service :=
  letI := Library.standard
  attend (fun _ => twinTree) (.empty []) (twinRequests more)

/-- The answer to the note, the numbers of the index and of the task, and the note before. -/
def twinOutcome (s : Service) : Option Text × Option Nat × Option Nat × Option (Option Note) :=
  letI := Library.standard
  (((takeNote twinSite twinNote).on s).1.toOption, s.setup.map Setup.serial,
    (s.todo.find? twinSite).map Task.detail,
    s.setup.map fun st => noteOn st.indexer.index twinSite)

def twinAnswer : Text := "Note submitted for f at CodeLocation(m.py, 1:0-2:8, 0-17)"

theorem twinOutcome_first :
    twinOutcome (twinService []) = (some twinAnswer, some 0, some 0, some none) := by
  decide +kernel

theorem twinOutcome_second :
    twinOutcome (twinService [.setUp (.ofText "b") "python" .document]) =
      (some twinAnswer, some 1, some 0, some none) := by
  decide +kernel

/-- The note is kept as long as the first repository is set up, also from its cache, and lost once
the second is. -/
theorem takeNote_kept_iff_twins :
    letI := Library.standard
    (∃ st answer s', (twinService []).setup = some st ∧
      (takeNote twinSite twinNote).on (twinService []) = (.ok answer, s') ∧
      ((note twinSite).on s').1 = .ok (some twinNote) ∧
      s'.files.TellsNote (cachePath st.repo .document) twinSite twinNote) ∧
    (∃ st answer s', (twinService [.setUp (.ofText "b") "python" .document]).setup = some st ∧
      (takeNote twinSite twinNote).on (twinService [.setUp (.ofText "b") "python" .document]) =
        (.ok answer, s') ∧
      ¬(((note twinSite).on s').1 = .ok (some twinNote) ∧
        s'.files.TellsNote (cachePath st.repo .document) twinSite twinNote)) ∧
    ∃ st answer s', (attend (fun _ => twinTree) cachedFiles
        [.setUp (.ofText "a") "python" .document]).setup = some st ∧
      (takeNote twinSite twinNote).on (attend (fun _ => twinTree) cachedFiles
        [.setUp (.ofText "a") "python" .document]) = (.ok answer, s') ∧
      ((note twinSite).on s').1 = .ok (some twinNote) ∧
      s'.files.TellsNote (cachePath st.repo .document) twinSite twinNote := by
  let _ := Library.standard
  refine ⟨?_, ?_, ?_⟩
  · have hfirst := twinOutcome_first
    simp only [twinOutcome, Prod.mk.injEq] at hfirst
    obtain ⟨hok, hserial, htask, -⟩ := hfirst
    have hon := on_of_toOption hok
    obtain ⟨st, hst, hiff⟩ :=
      (takeNote_kept_iff _ (.empty []) (forNotes_twinRequests (by simp)) _ _).1 _ _ hon
    refine ⟨st, _, _, hst, hon, hiff.2 (.inl fun task hfind => ?_)⟩
    have hsame := hserial.trans htask.symm
    rw [twinService, hst, hfind] at hsame
    exact (Option.some.inj hsame).symm
  · have hsecond := twinOutcome_second
    simp only [twinOutcome, Prod.mk.injEq] at hsecond
    obtain ⟨hok, hserial, htask, hnote⟩ := hsecond
    have hon := on_of_toOption hok
    obtain ⟨st, hst, hiff⟩ := (takeNote_kept_iff _ (.empty [])
      (forNotes_twinRequests (by simp [Request.ForNotes])) _ _).1 _ _ hon
    refine ⟨st, _, _, hst, hon, fun hkept => ?_⟩
    rw [twinService, hst] at hserial hnote
    rcases hiff.1 hkept with hfresh | hbefore
    · obtain ⟨task, hfind, hdetail⟩ := Option.map_eq_some_iff.1 htask
      have hlate : st.serial = 1 := Option.some.inj hserial
      have := hfresh task hfind
      omega
    · cases hbefore.symm.trans (Option.some.inj hnote)
  · have hfor : ∀ r ∈ [Request.setUp (.ofText "a") "python" .document], r.ForNotes := by
      simp [Request.ForNotes]
    obtain ⟨x, hx, hattend⟩ := attend_cached
    obtain ⟨hkept, htaken⟩ :=
      takeNote_kept_iff (fun _ => twinTree) oneDevice_cachedFiles hfor twinSite twinNote
    rw [hattend] at hkept htaken ⊢
    have hwhole : ∀ t ∈ (noteInto 0 twinSite twinNote
        ⟨x, .ofText "a", .document, 0⟩).indexer.index.snapshot.texts, t.hasHalf = false := by
      rw [noteInto, if_pos rfl, Indexer.addDefinition, hx]
      dsimp only
      decide +kernel
    obtain ⟨answer, s', hon⟩ :=
      htaken Library.keepsMembers_standard _ rfl hasRoom_cachedFiles hwhole
    obtain ⟨st, hst, hiff⟩ := hkept answer s' hon
    have hnone : (start cachedFiles).todo.find? twinSite = none := rfl
    refine ⟨st, answer, s', hst, hon, hiff.2 (.inl fun task hfind => ?_)⟩
    cases hnone.symm.trans hfind

end Service

end CallAtlas
