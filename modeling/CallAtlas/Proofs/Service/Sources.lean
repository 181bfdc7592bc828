import CallAtlas.Proofs.Service.Notes

/-! # Source texts that stay

The search tool answers with the source texts of definitions, and every text that it fetches stays
in the index. Texts are fetched one after the other and files are remembered in between, which
changes none of the texts (`Fetch.extends_byteRange`), so all of them are those that could be fetched
at the start (`exists_attachAll`).

* `search_keeps_iff`: a search leaves the index as it was iff every definition in the answers had
  the text that is fetched for it. The texts are in the answers, and in the document if the index is
  kept as one afterwards. -/

namespace CallAtlas

/-! ## Memory of files -/

namespace Fetch

variable {fs : Files} {cache cache' cache'' : Cache}

/-- What has been read since leaves the same to be told about every file. -/
def Agrees (fs : Files) (cache cache' : Cache) : Prop :=
  ∀ p, (bytes fs cache' p).2 = (bytes fs cache p).2

theorem Agrees.refl (fs : Files) (cache : Cache) : Agrees fs cache cache := fun _ => rfl

theorem Agrees.trans (h : Agrees fs cache cache') (h' : Agrees fs cache' cache'') :
    Agrees fs cache cache'' := fun p => (h' p).trans (h p)

theorem agrees_bytes (fs : Files) (cache : Cache) (p : Path) :
    Agrees fs cache (bytes fs cache p).1 := by
  cases hp : cache.get? p with
  | some data => simp only [bytes, hp]; exact .refl fs cache
  | none =>
    by_cases hexists : fs.pathExists p = true
    · cases hread : fs.read p with
      | error e => simp only [bytes, hp, hexists, hread, if_true]; exact .refl fs cache
      | ok c =>
        intro p'
        simp only [bytes, hp, hexists, hread, if_true, OrderedMap.get?_insert]
        by_cases hsame : p = p'
        · obtain rfl := hsame
          simp [hp, hexists, hread]
        · simp only [hsame, if_false]
          cases cache.get? p' with
          | some data => rfl
          | none =>
            simp only
            split
            · cases fs.read p' <;> rfl
            · rfl
    · simp only [bytes, hp, hexists]; exact .refl fs cache

theorem bytes_of_some {p : Path} {data : ByteArray} (h : cache.get? p = some data) :
    bytes fs cache p = (cache, .ok data) := by
  rw [bytes, h]

/-- The second memory is the first with files read since. -/
structure Extends (fs : Files) (cache cache' : Cache) : Prop where
  kept : ∀ p data, cache.get? p = some data → cache'.get? p = some data
  agrees : Agrees fs cache cache'

theorem Extends.refl (fs : Files) (cache : Cache) : Extends fs cache cache :=
  ⟨fun _ _ h => h, .refl fs cache⟩

theorem extends_bytes (fs : Files) (cache : Cache) (p : Path) :
    Extends fs cache (bytes fs cache p).1 := by
  refine ⟨fun p' data h => ?_, agrees_bytes fs cache p⟩
  cases hp : cache.get? p with
  | some _ => rw [bytes_of_some hp]; exact h
  | none =>
    have hne : p ≠ p' := by rintro rfl; rw [h] at hp; cases hp
    rw [bytes, hp]
    dsimp only
    split
    · split
      · rw [OrderedMap.get?_insert, if_neg hne]
        exact h
      · exact h
    · exact h

theorem extends_byteRange (fs : Files) (cache : Cache) (p : Path) (start stop : Int) :
    Extends fs cache (byteRange fs cache p start stop).1 := by
  have hbytes := extends_bytes fs cache p
  unfold byteRange
  split
  · exact .refl fs cache
  · split <;> next h => rw [h] at hbytes; exact hbytes

theorem Agrees.byteRange (h : Agrees fs cache cache') (p : Path) (start stop : Int) :
    (byteRange fs cache' p start stop).2 = (byteRange fs cache p start stop).2 := by
  have hp := h p
  unfold Fetch.byteRange
  generalize bytes fs cache p = found at hp ⊢
  generalize bytes fs cache' p = found' at hp ⊢
  obtain ⟨c, r⟩ := found
  obtain ⟨c', r'⟩ := found'
  obtain rfl : r' = r := hp
  split
  · rfl
  · cases r' <;> rfl

end Fetch

namespace Service

variable {s t u : Service} {st : Setup} {repo : Path}

/-! ## Texts -/

/-- The source text of a place in a repository, as files and the memory of them tell it. -/
def sourceAt (fs : Files) (cache : Fetch.Cache) (repo : Path) (l : Location) : Option Text :=
  match resolve fs repo l.file with
  | .error _ => none
  | .ok file => (Fetch.byteRange fs cache file l.startByte l.endByte).2.answer.toOption

theorem sourceAt_of_agrees {fs : Files} {cache cache' : Fetch.Cache}
    (h : Fetch.Agrees fs cache cache') (repo : Path) :
    sourceAt fs cache' repo = sourceAt fs cache repo := by
  funext l
  unfold sourceAt
  split
  · rfl
  · rw [h.byteRange]

/-- A definition with its text, if it has one. -/
def withText (texts : Location → Option Text) (d : Definition) : Definition :=
  match texts d.location with
  | none => d
  | some text => { d with source := some text }

/-- Puts the text of a place into an index. -/
def attachText (texts : Location → Option Text) (x : Indexer) (site : Site) : Indexer :=
  match texts site.location with
  | none => x
  | some text => x.adopt (x.index.setSource site.symbol site.location text)

/-- The second service is the first after the texts of some places were fetched. -/
structure Attaches (repo : Path) (sites : List Site) (s t : Service) : Prop where
  files : t.files = s.files
  cache : Fetch.Agrees s.files s.cache t.cache
  setup : t.setup = s.setup.map fun st =>
    { st with indexer := sites.foldl (attachText (sourceAt s.files s.cache repo)) st.indexer }

theorem Attaches.nil (repo : Path) (s : Service) : Attaches repo [] s s :=
  ⟨rfl, .refl _ _, by cases s.setup <;> rfl⟩

theorem Attaches.texts {sites : List Site} (h : Attaches repo sites s t) :
    sourceAt t.files t.cache repo = sourceAt s.files s.cache repo := by
  rw [h.files]
  exact sourceAt_of_agrees h.cache repo

theorem Attaches.append {sites sites' : List Site} (h : Attaches repo sites s t)
    (h' : Attaches repo sites' t u) : Attaches repo (sites ++ sites') s u := by
  refine ⟨h'.files.trans h.files, h.cache.trans (h.files ▸ h'.cache), ?_⟩
  rw [h'.setup, h.setup, h.texts, Option.map_map]
  simp only [Function.comp_def, List.foldl_append]

/-! ## Fetching -/

theorem exists_attachSource (repo : Path) (symbol : Symbol) (d : Definition) (s : Service) :
    ∃ notices t, (attachSource repo symbol d).on s =
        (.ok (notices, withText (sourceAt s.files s.cache repo) d), t) ∧
      Attaches repo [⟨symbol, d.location⟩] s t := by
  unfold attachSource
  rw [on_bind, on_get]
  cases hfile : resolve s.files repo d.location.file with
  | error e =>
    have hnone : sourceAt s.files s.cache repo d.location = none := by simp only [sourceAt, hfile]
    refine ⟨[], s, by simp only [hfile, on_pure, withText, hnone], rfl, .refl _ _, ?_⟩
    simp only [List.foldl_cons, List.foldl_nil, attachText, hnone]
    cases s.setup <;> rfl
  | ok file =>
    have hcache := (Fetch.extends_byteRange s.files s.cache file d.location.startByte
      d.location.endByte).agrees
    have hsource : sourceAt s.files s.cache repo d.location =
        (Fetch.byteRange s.files s.cache file d.location.startByte
          d.location.endByte).2.answer.toOption := by simp only [sourceAt, hfile]
    simp only [hfile]
    generalize Fetch.byteRange s.files s.cache file d.location.startByte d.location.endByte =
      found at hcache hsource ⊢
    obtain ⟨cache, fetched⟩ := found
    cases hanswer : fetched.answer with
    | error e =>
      have hnone : sourceAt s.files s.cache repo d.location = none := by
        rw [hsource, hanswer]; rfl
      refine ⟨fetched.warnings.map Notice.warning ++ [.noSource d], { s with cache := cache }, ?_,
        rfl, hcache, ?_⟩
      · simp only [on_bind, on_modify, on_pure, withText, hnone]
      · simp only [List.foldl_cons, List.foldl_nil, attachText, hnone]
        cases s.setup <;> rfl
    | ok text =>
      have hsome : sourceAt s.files s.cache repo d.location = some text := by
        rw [hsource, hanswer]; rfl
      refine ⟨fetched.warnings.map Notice.warning, { s with
        cache := cache
        setup := s.setup.map fun st => { st with
          indexer := st.indexer.adopt (st.indexer.index.setSource symbol d.location text) } },
        ?_, rfl, hcache, ?_⟩
      · simp only [on_bind, on_modify, onIndexer, on_pure, withText, hsome]
      · simp only [List.foldl_cons, List.foldl_nil, attachText, hsome]

theorem exists_attachSources (repo : Path) (symbol : Symbol) (ds : List Definition)
    (s : Service) :
    ∃ notices t, (attachSources repo symbol ds).on s =
        (.ok (notices, ds.map (withText (sourceAt s.files s.cache repo))), t) ∧
      Attaches repo (ds.map fun d => ⟨symbol, d.location⟩) s t := by
  induction ds generalizing s with
  | nil => exact ⟨[], s, rfl, .nil repo s⟩
  | cons d ds ih =>
    obtain ⟨notices, t, hon, hattach⟩ := exists_attachSource repo symbol d s
    obtain ⟨more, u, hons, hattaches⟩ := ih t
    refine ⟨notices ++ more, u, ?_, hattach.append hattaches⟩
    simp only [attachSources, on_bind, hon, hons, on_pure, hattach.texts, List.map_cons]

/-- The definitions in answers. -/
def sitesOf (answers : List Answer) : List Site :=
  answers.flatMap fun a => a.2.definitions.map fun d => ⟨a.1, d.location⟩

/-- All texts are those that could be fetched at the start. -/
theorem exists_attachAll (repo : Path) (answers : List Answer) (s : Service) :
    ∃ notices t, (attachAll repo answers).on s =
        (.ok (notices, answers.map fun a =>
          (a.1, { a.2 with
            definitions := a.2.definitions.map (withText (sourceAt s.files s.cache repo)) })), t) ∧
      Attaches repo (sitesOf answers) s t := by
  induction answers generalizing s with
  | nil => exact ⟨[], s, rfl, .nil repo s⟩
  | cons a rest ih =>
    obtain ⟨notices, t, hon, hattach⟩ := exists_attachSources repo a.1 a.2.definitions s
    obtain ⟨more, u, hons, hattaches⟩ := ih t
    refine ⟨notices ++ more, u, ?_, hattach.append hattaches⟩
    simp only [attachAll, on_bind, hon, hons, on_pure, hattach.texts, List.map_cons]

/-! ## The index -/

section Index

variable {texts : Location → Option Text} {x x' : Indexer}

theorem withText_withText (texts : Location → Option Text) (d : Definition) :
    withText texts (withText texts d) = withText texts d := by
  cases h : texts d.location <;> simp [withText, h]

theorem withText_eq_iff {d : Definition} :
    withText texts d = d ↔ ∀ text, texts d.location = some text → d.source = some text := by
  cases h : texts d.location with
  | none => simp [withText, h]
  | some text =>
    simp only [withText, h]
    constructor
    · rintro hd _ ⟨⟩
      exact hd ▸ rfl
    · intro hd
      rw [← hd text rfl]

theorem keyed_attachText (h : x.Keyed) (site : Site) : (attachText texts x site).Keyed := by
  unfold attachText
  split
  · exact h
  · exact h.setSource _ _ _

theorem keyed_foldl_attachText (h : x.Keyed) (sites : List Site) :
    (sites.foldl (attachText texts) x).Keyed :=
  List.foldlRecOn sites _ h fun _ hx site _ => keyed_attachText hx site

theorem location_of_definitionAt? {ix : Index} {symbol : Symbol} {l : Location} {d : Definition}
    (h : ix.definitionAt? symbol l = some d) : d.location = l := by
  simpa using List.find?_some h

theorem definitionAt?_adopt_setSource (h : x.Keyed) (s t : Symbol) (l k : Location) (text : Text) :
    (x.adopt (x.index.setSource s l text)).index.definitionAt? t k = if s = t ∧ l = k then
      (x.index.definitionAt? t k).map fun d => { d with source := some text }
      else x.index.definitionAt? t k := by
  obtain ⟨ix, hx, hk⟩ := h
  rw [Indexer.adopt, hx]
  simp only [Index.setSource]
  rw [(hk.setSource s l text).definitionAt?_linked, hk.definitionAt?_linked,
    Linked.definitionAt?_setSource]

theorem definitionAt?_attachText (h : x.Keyed) (site : Site) (symbol : Symbol) (l : Location) :
    (attachText texts x site).index.definitionAt? symbol l =
      (x.index.definitionAt? symbol l).map fun d =>
        if site = ⟨symbol, l⟩ then withText texts d else d := by
  have hwith : ∀ d, x.index.definitionAt? symbol l = some d → withText texts d =
      match texts l with
      | none => d
      | some text => { d with source := some text } := fun d hd => by
    rw [withText, location_of_definitionAt? hd]
  obtain ⟨symbol', l'⟩ := site
  unfold attachText
  by_cases hsite : symbol' = symbol ∧ l' = l
  · obtain ⟨rfl, rfl⟩ := hsite
    cases htext : texts l' with
    | none =>
      simp only [if_true]
      cases hd : x.index.definitionAt? symbol' l' with
      | none => rfl
      | some d => rw [Option.map_some, hwith d hd, htext]
    | some text =>
      simp only [if_true]
      rw [definitionAt?_adopt_setSource h, if_pos ⟨rfl, rfl⟩]
      cases hd : x.index.definitionAt? symbol' l' with
      | none => rfl
      | some d => rw [Option.map_some, Option.map_some, hwith d hd, htext]
  · have hne : (⟨symbol', l'⟩ : Site) ≠ ⟨symbol, l⟩ := fun heq => hsite (by cases heq; exact ⟨rfl, rfl⟩)
    simp only [if_neg hne, Option.map_id_fun', id]
    split
    · rfl
    · rw [definitionAt?_adopt_setSource h, if_neg hsite]

theorem definitionAt?_foldl_attachText (h : x.Keyed) (sites : List Site) (symbol : Symbol)
    (l : Location) :
    (sites.foldl (attachText texts) x).index.definitionAt? symbol l =
      (x.index.definitionAt? symbol l).map fun d =>
        if ⟨symbol, l⟩ ∈ sites then withText texts d else d := by
  induction sites generalizing x with
  | nil => simp
  | cons site sites ih =>
    rw [List.foldl_cons, ih (keyed_attachText h site), definitionAt?_attachText h, Option.map_map]
    congr 1
    funext d
    -- a place that is met again gets the text that it has by now
    by_cases hsite : site = ⟨symbol, l⟩
    · by_cases hmem : (⟨symbol, l⟩ : Site) ∈ sites
      · simp [hsite, hmem, withText_withText]
      · simp [hsite, hmem]
    · simp [hsite, Ne.symm hsite]

/-- A definition that has its text already leaves the index as it was. -/
theorem index_attachText (h : x.Keyed) {site : Site}
    (hsite : ∀ d, x.index.definitionAt? site.symbol site.location = some d → withText texts d = d) :
    (attachText texts x site).index = x.index := by
  obtain ⟨ix, hx, hk⟩ := h
  unfold attachText
  split
  · rfl
  · next text htext =>
    simp only [Indexer.adopt, hx, Index.setSource]
    rw [hx, hk.definitionAt?_linked] at hsite
    cases hd : ix.definitionAt? site.symbol site.location with
    | none => simp only [Linked.setSource, hd]
    | some d =>
      have hsource := withText_eq_iff.1 (hsite d hd)
      rw [hk.definition _ _ d hd] at hsource
      rw [Linked.setSource_of_source hd (hsource text htext)]

theorem index_foldl_attachText (h : x.Keyed) {sites : List Site}
    (hsites : ∀ site ∈ sites, ∀ d, x.index.definitionAt? site.symbol site.location = some d →
      withText texts d = d) : (sites.foldl (attachText texts) x).index = x.index := by
  induction sites generalizing x with
  | nil => rfl
  | cons site sites ih =>
    have hsame := index_attachText h (hsites site List.mem_cons_self)
    rw [List.foldl_cons, ih (keyed_attachText h site), hsame]
    intro site' hmem
    rw [hsame]
    exact hsites site' (List.mem_cons_of_mem _ hmem)

theorem definitionAt?_of_snapshot (h : x.Keyed) (h' : x'.Keyed)
    (hsnapshot : x.index.snapshot = x'.index.snapshot) (symbol : Symbol) (l : Location) :
    x.index.definitionAt? symbol l = x'.index.definitionAt? symbol l := by
  obtain ⟨ix, hx, hk⟩ := h
  obtain ⟨ix', hx', hk'⟩ := h'
  rw [hx, hx'] at hsnapshot ⊢
  have hcards := hk.cards_of_items hk' (congrArg Snapshot.entries hsnapshot)
  rw [hk.definitionAt?_linked, hk'.definitionAt?_linked, Linked.definitionAt?, hcards]
  rfl

/-- The texts leave an index as it was iff every definition had its text. -/
theorem snapshot_foldl_attachText_iff (h : x.Keyed) (sites : List Site) :
    (sites.foldl (attachText texts) x).index.snapshot = x.index.snapshot ↔
      ∀ site ∈ sites, ∀ d, x.index.definitionAt? site.symbol site.location = some d →
        withText texts d = d := by
  constructor
  · intro hsnapshot site hmem d hd
    have hafter := @definitionAt?_foldl_attachText texts x h sites site.symbol site.location
    rw [definitionAt?_of_snapshot (keyed_foldl_attachText h sites) h hsnapshot, hd, Option.map_some,
      if_pos hmem] at hafter
    exact (Option.some.inj hafter).symm
  · intro hsites
    rw [index_foldl_attachText h hsites]

end Index

/-! ## Searches -/

/-- A search answers with a definition and fetches its source text. -/
def Finds [Library] (s : Service) (q : Query) (symbol : Symbol) (d : Definition) (text : Text) :
    Prop :=
  ∃ answers t st i, (do logCall; ask q : Tool (List Answer)).on s = (.ok answers, t) ∧
    t.setup = some st ∧ (symbol, i) ∈ answers ∧ d ∈ i.definitions ∧
    sourceAt t.files t.cache st.repo d.location = some text

/-- The document that was written at a path tells the source text of a definition, whose place it
tells by its text. -/
def WritesSource [Library] (fs fs' : Files) (p : Path) (site : Site) (text : Text) : Prop :=
  ∃ document data i d, fs.write p (.bytes (String.toUTF8 document)) = .ok fs' ∧
    Store.Document.parse document = some data ∧ (site.symbol, i) ∈ data.entries ∧
    d ∈ i.definitions ∧ d.location = site.location.reread ∧ d.source = some text

theorem answer_of_logged [Library] {q : Query} {answers : List Answer}
    (h : (do logCall; ask q : Tool (List Answer)).on s = (.ok answers, t)) :
    ∃ st, s.setup = some st ∧ st.indexer.index.answer q = .ok answers := by
  have hlogged := spares_logCall.setup_eq s
  rw [on_bind] at h
  rcases hlog : logCall.on s with ⟨e | _, t₀⟩
  · rw [hlog] at h; cases h
  · rw [hlog] at h hlogged
    dsimp only at hlogged
    simp only [ask, index, on_bind, on_current, hlogged] at h
    cases hst : s.setup with
    | none => rw [hst] at h; cases h
    | some st =>
      rw [hst] at h
      simp only [on_pure, on_lift] at h
      cases hanswer : st.indexer.index.answer q with
      | error e => rw [hanswer] at h; cases h
      | ok found => rw [hanswer] at h; cases h; exact ⟨st, rfl, hanswer⟩

theorem search_eq [Library] (q : Query) : search q = (do logCall; ask q) >>= fun answers => do
    let st ← current .notSetUp
    let found ← attachAll st.repo answers
    lift .file (checkFiles (← get).files st.repo answers)
    return found := by
  rw [search, bind_assoc]

/-- A search fails before it fetches anything, or fetches the texts of all answers. -/
theorem search_cases [Library] (q : Query) (s : Service) :
    (∃ e t, (do logCall; ask q : Tool (List Answer)).on s = (.error e, t) ∧ t.setup = s.setup ∧
      (search q).on s = (.error e, t)) ∨
    ∃ answers st t u r, (do logCall; ask q : Tool (List Answer)).on s = (.ok answers, t) ∧
      s.setup = some st ∧ t.setup = some st ∧ st.indexer.index.answer q = .ok answers ∧
      Attaches st.repo (sitesOf answers) t u ∧ (search q).on s = (r, u) ∧
      ∀ notices found, r = .ok (notices, found) → found = answers.map fun a => (a.1, { a.2 with
        definitions := a.2.definitions.map (withText (sourceAt t.files t.cache st.repo)) }) := by
  have hon := congrArg (fun tool => tool.on s) (search_eq q)
  rw [on_bind] at hon
  have hsetup := (spares_logged (spares_index.bind fun _ => spares_lift _ _) :
    Spares (do logCall; ask q)).setup_eq s
  rcases hasked : (do logCall; ask q : Tool (List Answer)).on s with ⟨e | answers, t⟩
  · rw [hasked] at hsetup hon
    exact .inl ⟨e, t, rfl, hsetup, hon⟩
  · rw [hasked] at hsetup hon
    obtain ⟨st, hst, hanswer⟩ := answer_of_logged hasked
    have ht : t.setup = some st := hsetup.trans hst
    obtain ⟨notices, u, hfetched, hattaches⟩ := exists_attachAll st.repo answers t
    simp only [on_bind, on_current, ht, hfetched, on_get, on_lift] at hon
    cases hcheck : checkFiles u.files st.repo answers with
    | error e =>
      rw [hcheck] at hon
      exact .inr ⟨answers, st, t, u, _, rfl, hst, ht, hanswer, hattaches, hon, fun _ _ hr => by
        cases hr⟩
    | ok _ =>
      rw [hcheck] at hon
      exact .inr ⟨answers, st, t, u, _, rfl, hst, ht, hanswer, hattaches, hon, fun _ _ hr => by
        cases hr; rfl⟩

theorem mem_sitesOf {answers : List Answer} {a : Answer} (ha : a ∈ answers) {d : Definition}
    (hd : d ∈ a.2.definitions) : (⟨a.1, d.location⟩ : Site) ∈ sitesOf answers :=
  List.mem_flatMap.2 ⟨a, ha, List.mem_map.2 ⟨d, hd, rfl⟩⟩

theorem definitionAt?_of_answer [Library] {x : Indexer} (hx : x.Keyed) {q : Query}
    {answers : List Answer}
    (hq : x.index.answer q = .ok answers) {a : Answer} (ha : a ∈ answers) {d : Definition}
    (hd : d ∈ a.2.definitions) : x.index.definitionAt? a.1 d.location = some d := by
  obtain ⟨ix, hix, hk⟩ := hx
  rw [hix] at hq ⊢
  rw [hk.definitionAt?_linked]
  exact hk.definitionAt?_of_answer hq ha hd

/-- The texts of the definitions in the answers leave the index as it was iff they were known. -/
theorem snapshot_attachText_iff [Library] {q : Query} {answers : List Answer}
    (hk : st.indexer.Keyed)
    (hanswer : st.indexer.index.answer q = .ok answers) (texts : Location → Option Text) :
    ((sitesOf answers).foldl (attachText texts) st.indexer).index.snapshot =
        st.indexer.index.snapshot ↔
      ∀ a ∈ answers, ∀ d ∈ a.2.definitions, ∀ text, texts d.location = some text →
        d.source = some text := by
  rw [snapshot_foldl_attachText_iff hk]
  constructor
  · intro h a ha d hd
    have hsite : (⟨a.1, d.location⟩ : Site) ∈ sitesOf answers := mem_sitesOf ha hd
    exact withText_eq_iff.1 (h _ hsite d (definitionAt?_of_answer hk hanswer ha hd))
  · intro h site hsite d hd
    obtain ⟨a, ha, hmem⟩ := List.mem_flatMap.1 hsite
    obtain ⟨d₀, hd₀, rfl⟩ := List.mem_map.1 hmem
    rw [definitionAt?_of_answer hk hanswer ha hd₀] at hd
    cases hd
    exact withText_eq_iff.2 (h a ha _ hd₀)

theorem finds_iff [Library] {q : Query} {answers : List Answer} {symbol : Symbol} {d : Definition}
    {text : Text} (hasked : (do logCall; ask q : Tool (List Answer)).on s = (.ok answers, t))
    (hst : t.setup = some st) : Finds s q symbol d text ↔ ∃ i, (symbol, i) ∈ answers ∧
      d ∈ i.definitions ∧ sourceAt t.files t.cache st.repo d.location = some text := by
  constructor
  · rintro ⟨answers', t', st', i, hasked', hst', hi, hd, htext⟩
    cases hasked'.symm.trans hasked
    cases hst'.symm.trans hst
    exact ⟨i, hi, hd, htext⟩
  · rintro ⟨i, hi, hd, htext⟩
    exact ⟨answers, t, st, i, hasked, hst, hi, hd, htext⟩

/-- After any requests, `search` leaves the snapshot of the index as it was iff every definition for
which it `Finds` a source text had this text. Every text that it finds is in the answers, and
`persist` then `WritesSource` if the index is kept as a document. -/
theorem search_keeps_iff [Library] {parse : Parser} {files : Files} {requests : List Request}
    {q : Query} {r : Except ServiceError (List Notice × List Answer)}
    (hs : attend parse files requests = s) (ht : (search q).on s = (r, t)) :
    (t.setup.map (fun st => st.indexer.index.snapshot) =
        s.setup.map (fun st => st.indexer.index.snapshot) ↔
      ∀ symbol d text, Finds s q symbol d text → d.source = some text) ∧
    ∀ symbol d text, Finds s q symbol d text →
      (∀ notices found, r = .ok (notices, found) →
        ∃ i, (symbol, i) ∈ found ∧ { d with source := some text } ∈ i.definitions) ∧
      ∀ st answer u, t.setup = some st →
        cacheFormat t.files st.repo st.choice = .ok .document →
        persist.on t = (.ok answer, u) →
        WritesSource t.files u.files (cachePath st.repo .document) ⟨symbol, d.location⟩ text := by
  have hindexed : s.Indexed := hs ▸ indexed_attend parse files requests
  rcases search_cases q s with ⟨e, t₀, hasked, hsetup, hon⟩ |
    ⟨answers, st, t₀, u₀, r₀, hasked, hst, hst₀, hanswer, hattaches, hon, hfound⟩
  · obtain ⟨rfl, rfl⟩ := Prod.mk.inj (ht.symm.trans hon)
    have hnone : ∀ symbol d text, ¬ Finds s q symbol d text := by
      rintro symbol d text ⟨answers, t₀, st, i, hanswers, -⟩
      cases hanswers.symm.trans hasked
    refine ⟨iff_of_true (by rw [hsetup]) fun _ _ _ h => ?_, fun _ _ _ h => ?_⟩
    · exact absurd h (hnone _ _ _)
    · exact absurd h (hnone _ _ _)
  · obtain ⟨rfl, rfl⟩ := Prod.mk.inj (ht.symm.trans hon)
    have hk := hindexed.setup hst
    have hsetup := hattaches.setup
    rw [hst₀, Option.map_some] at hsetup
    constructor
    · rw [hsetup, hst, Option.map_some, Option.map_some, Option.some.injEq,
        snapshot_attachText_iff hk hanswer]
      constructor
      · intro h symbol d text hfinds
        obtain ⟨i, hi, hd, htext⟩ := (finds_iff hasked hst₀).1 hfinds
        exact h (symbol, i) hi d hd text htext
      · intro h a ha d hd text htext
        exact h a.1 d text ((finds_iff hasked hst₀).2 ⟨a.2, ha, hd, htext⟩)
    · intro symbol d text hfinds
      obtain ⟨i, hi, hd, htext⟩ := (finds_iff hasked hst₀).1 hfinds
      have hwith : withText (sourceAt t₀.files t₀.cache st.repo) d = { d with source := some text } :=
        by rw [withText, htext]
      constructor
      · rintro notices found hr
        refine ⟨_, (hfound notices found hr).symm ▸ List.mem_map.2 ⟨(symbol, i), hi, rfl⟩, ?_⟩
        exact hwith ▸ List.mem_map.2 ⟨d, hd, rfl⟩
      · intro st' answer u hst' hf hpersist
        cases hst'.symm.trans hsetup
        obtain ⟨-, hwrite⟩ := write_of_persist hpersist hsetup hf
        have hafter := @definitionAt?_foldl_attachText (sourceAt t₀.files t₀.cache st.repo) _ hk
          (sitesOf answers) symbol d.location
        rw [definitionAt?_of_answer hk hanswer hi hd, Option.map_some, if_pos (mem_sitesOf hi hd),
          hwith] at hafter
        obtain ⟨data, i', hparse, hi', hd', hl⟩ :=
          mem_document (keyed_foldl_attachText hk (sitesOf answers)) hafter
        exact ⟨_, data, i', _, hwrite, hparse, hi', hd', hl, rfl⟩

/-- The text of the function is fetched when it is searched for. -/
theorem finds_firstTwin : letI := Library.standard
    Finds firstTwin (.byKey twinSite.symbol) twinSite.symbol (.bare twinSite.location)
      "def f():\n    pass" := by
  let _ := Library.standard
  obtain ⟨hanswers, htext⟩ :
      ((do logCall; ask (.byKey twinSite.symbol) : Tool (List Answer)).on
        firstTwin).1.toOption = some [(twinSite.symbol, ⟨[.bare twinSite.location], []⟩)] ∧
      ((do logCall; ask (.byKey twinSite.symbol) : Tool (List Answer)).on
        firstTwin).2.setup.map (fun st => sourceAt
          ((do logCall; ask (.byKey twinSite.symbol) : Tool (List Answer)).on firstTwin).2.files
          ((do logCall; ask (.byKey twinSite.symbol) : Tool (List Answer)).on firstTwin).2.cache
          st.repo twinSite.location) =
        some (some ("def f():\n    pass" : Text)) := by decide +kernel
  obtain ⟨st, hst, htext⟩ := Option.map_eq_some_iff.1 htext
  exact ⟨_, _, st, _, on_of_toOption hanswers, hst, List.mem_singleton.2 rfl,
    List.mem_singleton.2 rfl, htext⟩

/-- The search changes the index, and the document that is kept afterwards tells the text. -/
theorem search_keeps_iff_firstTwin : letI := Library.standard
    ∃ r t st answer u, (search (.byKey twinSite.symbol)).on firstTwin = (r, t) ∧
      t.setup.map (fun st => st.indexer.index.snapshot) ≠
        firstTwin.setup.map (fun st => st.indexer.index.snapshot) ∧
      t.setup = some st ∧ persist.on t = (.ok answer, u) ∧
      WritesSource t.files u.files (cachePath st.repo .document) twinSite
        "def f():\n    pass" := by
  let _ := Library.standard
  obtain ⟨hiff, hall⟩ := search_keeps_iff (s := firstTwin) rfl
    (Prod.ext rfl rfl : (search (.byKey twinSite.symbol)).on firstTwin = _)
  obtain ⟨hformat, hpersist⟩ :
      ((search (.byKey twinSite.symbol)).on firstTwin).2.setup.map (fun st =>
        (cacheFormat ((search (.byKey twinSite.symbol)).on firstTwin).2.files st.repo
          st.choice).toOption) = some (some .document) ∧
      (persist.on ((search (.byKey twinSite.symbol)).on firstTwin).2).1.toOption =
        some "Index data successfully persisted to a/.code_index.cache/index.json" := by
    decide +kernel
  obtain ⟨st, hst, hf⟩ := Option.map_eq_some_iff.1 hformat
  refine ⟨_, _, st, _, _, rfl, fun hsame => ?_, hst, on_of_toOption hpersist, ?_⟩
  · cases hiff.1 hsame _ _ _ finds_firstTwin
  · exact (hall _ _ _ finds_firstTwin).2 st _ _ hst (ok_of_toOption hf) (on_of_toOption hpersist)

end Service

end CallAtlas
