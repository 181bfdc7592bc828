import CallAtlas.Proofs.Library
import CallAtlas.Proofs.Service.Requests

/-! # Set-ups that fail

A repository takes the place of the one before as soon as its language is known, and whatever fails
after that leaves it there: with an empty index if the cache is refused or cannot be loaded, with
what has been indexed so far if a file cannot be indexed, and with its whole index if this cannot be
kept (`remains`).

* `answersAlike_setUp_iff`: the service answers as before a set-up that failed iff the language is
  unknown, or the index that the set-up has left tells the same as the one before. -/

namespace CallAtlas

/-- Two indexers with records at their own places answer every question alike iff they tell the same
in the same order. -/
theorem Indexer.Keyed.answer_eq_iff [Library] (hempty : Library.FindsEmpty) {x x' : Indexer}
    (h : x.Keyed) (h' : x'.Keyed) :
    (∀ q, x.index.answer q = x'.index.answer q) ↔ x.index.items = x'.index.items := by
  obtain ⟨ix, hx, hk⟩ := h
  obtain ⟨ix', hx', hk'⟩ := h'
  rw [hx, hx']
  exact Linked.Keyed.answer_eq_iff hempty hk hk'

namespace Service

variable {s s' : Service} {st st' : Setup}

/-! ## What is left -/

/-- The indexer that a set-up in some files leaves when it fails after its language is known. -/
def remains (parse : Parser) (fs : Files) (repo : Path) (choice : CacheChoice) (l : Language) :
    Indexer :=
  match cacheFormat fs repo choice with
  | .error _ => .start l .linked true
  | .ok f =>
    if fs.pathExists (cachePath repo f) then .start l .linked true
    else ((Indexer.start l .linked true).indexProject parse fs repo).1

theorem keyed_remains (parse : Parser) (fs : Files) (repo : Path) (choice : CacheChoice)
    (l : Language) : (remains parse fs repo choice l).Keyed := by
  have hstart : (Indexer.start l .linked true).Keyed := .start l true
  unfold remains
  split
  · exact hstart
  · split
    · exact hstart
    · exact hstart.indexProject parse fs repo

/-- A cache that cannot be loaded leaves the repository as it was. -/
theorem setup_of_loadCache_error [Library] {f : Store.Format} {e : ServiceError}
    (h : ((loadCache st f).on s).1 = .error e) : ((loadCache st f).on s).2.setup = s.setup := by
  rw [loadCache, on_bind, on_get] at h ⊢
  simp only at h ⊢
  split at h
  · simp at h
  · rfl

/-- A set-up that fails once its language is known leaves its repository in the place of the one
before. -/
theorem setup_of_setUp_error [Library] {parse : Parser} {repo : Path} {language : Text}
    {choice : CacheChoice} {e : ServiceError}
    (h : ((setUp parse repo language choice).on s).1 = .error e) {l : Language}
    (hl : Language.byName? language = some l) :
    ((setUp parse repo language choice).on s).2.setup =
      some ⟨remains parse s.files repo choice l, repo, choice, s.nextSerial⟩ := by
  rw [on_setUp hl] at h ⊢
  -- the format of the cache is refused, the cache cannot be loaded, or the index cannot be made or
  -- kept
  unfold remains
  cases hf : cacheFormat s.files repo choice with
  | error refused => rfl
  | ok f =>
    rw [hf] at h
    simp only [lift, pure_bind] at h ⊢
    split at h
    · next hcached =>
      rw [on_bind_pure] at h
      rw [if_pos hcached, if_pos hcached, on_bind_pure]
      cases hload : ((loadCache ⟨.start l .linked true, repo, choice, s.nextSerial⟩ f).on { s with
          setup := some ⟨.start l .linked true, repo, choice, s.nextSerial⟩
          nextSerial := s.nextSerial + 1 }).1 with
      | ok _ => rw [hload] at h; cases h
      | error e => exact setup_of_loadCache_error hload
    · next hcached => rw [if_neg hcached, if_neg hcached, on_bind_pure, setup_fillCache]

theorem setUp_of_unknown [Library] {language : Text} (hl : Language.byName? language = none)
    (parse : Parser) (repo : Path) (choice : CacheChoice) :
    (setUp parse repo language choice).on s = (.error (.unknownLanguage language), s) := by
  unfold setUp
  rw [hl]
  rfl

/-! ## Answers -/

/-- Two services answer alike: whether a repository is set up, what is known about symbols, and
which symbols there are. -/
structure AnswersAlike [Library] (s s' : Service) : Prop where
  ready : (discard (current .notSetUp) |>.on s').1 = (discard (current .notSetUp) |>.on s).1
  ask : ∀ q, ((ask q).on s').1 = ((ask q).on s).1
  symbols : (listSymbols.on s').1 = (listSymbols.on s).1

theorem AnswersAlike.refl [Library] (s : Service) : AnswersAlike s s := ⟨rfl, fun _ => rfl, rfl⟩

theorem on_ask [Library] (hst : s.setup = some st) (q : Query) :
    ((ask q).on s).1 = (st.indexer.index.answer q).mapError .query := by
  simp only [ask, index, on_bind, on_current, hst, on_pure, on_lift]

theorem on_listSymbols [Library] (hst : s.setup = some st) :
    listSymbols.on s = (.ok (symbolsOf st.indexer), s) := by
  simp only [listSymbols, on_bind, on_current, hst, on_pure]

theorem mapError_query_inj {α : Type} {x y : Except QueryError α}
    (h : x.mapError ServiceError.query = y.mapError .query) : x = y := by
  cases x <;> cases y <;> cases h <;> rfl

/-- Where a repository is set up before and after, the answers are alike iff both indexes tell the
same and list their symbols in the same order. -/
theorem answersAlike_iff [Library] (hempty : Library.FindsEmpty) (hst : s.setup = some st)
    (hst' : s'.setup = some st') (hk : st.indexer.Keyed) (hk' : st'.indexer.Keyed) :
    AnswersAlike s s' ↔ st.indexer.index.items = st'.indexer.index.items ∧
      symbolsOf st.indexer = symbolsOf st'.indexer := by
  rw [← Indexer.Keyed.answer_eq_iff hempty hk hk']
  constructor
  · rintro ⟨-, hask, hsymbols⟩
    refine ⟨fun q => ?_, ?_⟩
    · have hq := hask q
      rw [on_ask hst, on_ask hst'] at hq
      exact (mapError_query_inj hq).symm
    · rw [on_listSymbols hst, on_listSymbols hst'] at hsymbols
      exact (Except.ok.inj hsymbols).symm
  · rintro ⟨hanswer, hsymbols⟩
    refine ⟨?_, fun q => ?_, ?_⟩
    · simp [hst, hst']
    · rw [on_ask hst, on_ask hst', hanswer]
    · rw [on_listSymbols hst, on_listSymbols hst', hsymbols]

theorem not_answersAlike [Library] (hst : s.setup = none) (hst' : s'.setup = some st') :
    ¬ AnswersAlike s s' := by
  intro h
  have hready := h.ready
  simp [hst, hst'] at hready

/-- After any requests, a set-up that fails leaves services that are `AnswersAlike` iff the language
is unknown, or a repository was set up before whose index tells the same in the same order as that
of `remains`, the indexer that is left. -/
theorem answersAlike_setUp_iff [Library] (hempty : Library.FindsEmpty) (parse : Parser)
    (files : Files) (requests : List Request) (repo : Path) (language : Text)
    (choice : CacheChoice) (e : ServiceError)
    (h : ((setUp parse repo language choice).on (attend parse files requests)).1 = .error e) :
    AnswersAlike (attend parse files requests)
        ((setUp parse repo language choice).on (attend parse files requests)).2 ↔
      ∀ l, Language.byName? language = some l →
        ∃ st, (attend parse files requests).setup = some st ∧
          st.indexer.index.items =
            (remains parse (attend parse files requests).files repo choice l).index.items ∧
          symbolsOf st.indexer =
            symbolsOf (remains parse (attend parse files requests).files repo choice l) := by
  have hindexed := indexed_attend parse files requests
  generalize attend parse files requests = s at h hindexed ⊢
  cases hl : Language.byName? language with
  | none =>
    rw [setUp_of_unknown hl]
    exact iff_of_true (.refl s) nofun
  | some l =>
    have hleft := setup_of_setUp_error h hl
    have hk := keyed_remains parse s.files repo choice l
    cases hst : s.setup with
    | none =>
      refine iff_of_false (not_answersAlike hst hleft) fun hall => ?_
      obtain ⟨st, hnone, -⟩ := hall l rfl
      cases hnone
    | some st =>
      rw [answersAlike_iff hempty hst hleft (hindexed.setup hst) hk]
      constructor
      · rintro hsame _ ⟨⟩
        exact ⟨st, rfl, hsame⟩
      · intro hall
        obtain ⟨_, ⟨⟩, hsame⟩ := hall l rfl
        exact hsame

/-- A set-up with a cache that is not supported takes the function away, and one with an unknown
language does not. -/
theorem answersAlike_setUp_iff_firstTwin :
    letI := Library.standard
    (∃ e s', (setUp (fun _ => twinTree) (.ofText "b") "python" (.unsupported "yaml")).on firstTwin =
      (.error e, s') ∧ ¬ AnswersAlike firstTwin s') ∧
    ∃ e s', (setUp (fun _ => twinTree) (.ofText "b") "ruby" .document).on firstTwin =
      (.error e, s') ∧ AnswersAlike firstTwin s' := by
  let _ := Library.standard
  have hpython : Language.byName? "python" = some Language.python := rfl
  have hruby : Language.byName? "ruby" = none := rfl
  constructor
  · have herror : ((setUp (fun _ => twinTree) (.ofText "b") "python" (.unsupported "yaml")).on
        firstTwin).1 = .error (.unsupportedCache "yaml") := by
      rw [on_setUp hpython]
      rfl
    refine ⟨_, _, Prod.ext herror rfl, fun halike => ?_⟩
    obtain ⟨st, hst, hitems, -⟩ :=
      (answersAlike_setUp_iff Library.findsEmpty_standard _ _ _ _ _ _ _ herror).1 halike _ hpython
    have hcount : firstTwin.setup.map (fun st => st.indexer.index.items.length) = some 1 := by
      decide +kernel
    rw [firstTwin, hst, Option.map_some, hitems] at hcount
    cases hcount
  · have herror : ((setUp (fun _ => twinTree) (.ofText "b") "ruby" .document).on firstTwin).1 =
        .error (.unknownLanguage "ruby") := by
      rw [setUp_of_unknown hruby]
    refine ⟨_, _, Prod.ext herror rfl,
      (answersAlike_setUp_iff Library.findsEmpty_standard _ _ _ _ _ _ _ herror).2 ?_⟩
    intro l hl
    rw [hruby] at hl
    cases hl

end Service

end CallAtlas
