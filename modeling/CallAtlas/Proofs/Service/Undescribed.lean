import CallAtlas.Proofs.Service.Filling
import CallAtlas.Proofs.Service.Notes

/-! # Definitions without a note

Once a repository has been set up, the tasks that wait are for definitions without a note, and those
that are submitted for definitions with one. Both stay so when the definitions without a note are
put on the list and when a note is taken on whatever definition (`Tracks`), since a note goes to the
definition that it is on and settles the task of this definition.

* `pending_undescribed`: after any requests of these kinds, what is pending has no note, and right
  after the list has been filled, all that has no note is pending. -/

namespace CallAtlas.Service

variable {s : Service} {st : Setup} {list : TodoList Site Note Nat} {site : Site}

/-! ## Definitions without a note -/

/-- A definition that is in the index and has no note. -/
def Undescribed (ix : Index) (site : Site) : Prop :=
  ∃ d, ix.definitionAt? site.symbol site.location = some d ∧ d.note = none

theorem undescribed_iff {ix : Index} :
    Undescribed ix site ↔ site ∈ allSites ix ∧ noteOn ix site = none := by
  rw [mem_allSites, noteOn, Undescribed]
  cases ix.definitionAt? site.symbol site.location <;> simp

/-- A note describes the definition that it is on, and no other. -/
theorem undescribed_noteInto (h : st.indexer.Keyed) (site other : Site) (n : Note) :
    Undescribed (noteInto st.serial site n st).indexer.index other ↔
      Undescribed st.indexer.index other ∧ other ≠ site := by
  rw [Undescribed, definitionAt?_noteInto h]
  split
  · next hsame =>
    obtain rfl : site = other := by cases site; cases other; simpa using hsame
    simp [Definition.absorb, noted, Definition.setNote]
  · next hother =>
    have hne : other ≠ site := fun hsame => hother ⟨by rw [hsame], by rw [hsame]⟩
    simp [Undescribed, hne]

/-- A definition that has a note keeps one. -/
theorem isSome_noteOn_noteInto (h : st.indexer.Keyed) (site other : Site) (n : Note)
    (hnoted : other = site ∨ (noteOn st.indexer.index other).isSome) :
    (noteOn (noteInto st.serial site n st).indexer.index other).isSome := by
  rw [noteOn, definitionAt?_noteInto h]
  split
  · simp [Definition.absorb, noted, Definition.setNote]
  · next hother =>
    rcases hnoted with rfl | hnoted
    · exact absurd ⟨rfl, rfl⟩ hother
    · exact hnoted

/-! ## The list and the index -/

/-- The tasks of a list are those of an index: those that wait are for definitions without a note,
and those that are submitted for definitions with one. -/
structure Tracks (list : TodoList Site Note Nat) (st : Setup) : Prop where
  keyed : st.indexer.Keyed
  consistent : list.Consistent
  resubmit : list.resubmit = true
  serial : ∀ t ∈ list.tasks, t.detail = st.serial
  waiting : ∀ t ∈ list.tasks, t.submitted = false → Undescribed st.indexer.index t.id
  submitted : ∀ t ∈ list.tasks, t.submitted = true → (noteOn st.indexer.index t.id).isSome

namespace Tracks

theorem empty (h : st.indexer.Keyed) (name : Text) : Tracks (.empty name true) st :=
  ⟨h, .empty name true, rfl, fun _ ht => absurd ht List.not_mem_nil,
    fun _ ht => absurd ht List.not_mem_nil, fun _ ht => absurd ht List.not_mem_nil⟩

theorem undescribed_of_pending (h : Tracks list st) (hsite : site ∈ list.pendingIds none 0) :
    Undescribed st.indexer.index site := by
  obtain ⟨t, ht, hwaits, rfl⟩ := h.consistent.mem_pendingIds.1 hsite
  exact h.waiting t ht hwaits

/-! ### Filling the list -/

theorem fill (h : Tracks list st) :
    Tracks ((allSites st.indexer.index).foldl (enqueue st.indexer.index st.serial true) list)
      st where
  keyed := h.keyed
  consistent := consistent_foldl_enqueue h.consistent _
  resubmit := (resubmit_foldl_enqueue ..).trans h.resubmit
  serial t ht := by
    rcases mem_tasks_foldl_enqueue.1 ht with ht | ⟨site, -, -, -, rfl⟩
    · exact h.serial t ht
    · rfl
  waiting t ht hwaits := by
    rcases mem_tasks_foldl_enqueue.1 ht with ht | ⟨site, hsite, hwanted, -, rfl⟩
    · exact h.waiting t ht hwaits
    · exact undescribed_iff.2 ⟨hsite, hwanted rfl⟩
  submitted t ht hdone := by
    rcases mem_tasks_foldl_enqueue.1 ht with ht | ⟨site, -, -, -, rfl⟩
    · exact h.submitted t ht hdone
    · cases hdone

/-- What has no note is pending after the list has been filled: its task, if it had one before, is
not submitted. -/
theorem mem_pendingIds_fill (h : Tracks list st) :
    site ∈ ((allSites st.indexer.index).foldl (enqueue st.indexer.index st.serial true)
      list).pendingIds none 0 ↔ Undescribed st.indexer.index site := by
  refine ⟨h.fill.undescribed_of_pending, fun hsite => ?_⟩
  obtain ⟨hmem, hnone⟩ := undescribed_iff.1 hsite
  refine h.fill.consistent.mem_pendingIds.2 ?_
  by_cases hold : site ∈ list.ids
  · obtain ⟨t, ht, rfl⟩ := List.mem_map.1 hold
    refine ⟨t, mem_tasks_foldl_enqueue.2 (.inl ht), Bool.eq_false_iff.2 fun hdone => ?_, rfl⟩
    have hnoted := h.submitted t ht hdone
    rw [hnone] at hnoted
    cases hnoted
  · exact ⟨newTask st.serial site,
      mem_tasks_foldl_enqueue.2 (.inr ⟨site, hmem, fun _ => hnone, hold, rfl⟩), rfl, rfl⟩

/-! ### Taking a note -/

theorem addressee_eq (h : Tracks list st) (site : Site) : addressee list site st = st.serial :=
  addressee_eq_iff.2 fun t hfind => h.serial t (TodoList.mem_of_find? hfind).1

end Tracks

theorem mem_tasks_settleTask {n : Note} {t : Task Site Note Nat}
    (ht : t ∈ (settleTask list site n).tasks) : ∃ old ∈ list.tasks,
      t.id = old.id ∧ t.detail = old.detail ∧
        (t.submitted = if old.id = site then true else old.submitted) := by
  unfold settleTask at ht
  split at ht
  · obtain ⟨old, hold, rfl⟩ := List.mem_map.1 ht
    refine ⟨old, hold, ?_⟩
    by_cases hid : old.id = site <;> simp [hid]
  · next hnone =>
    have hid : t.id ≠ site := fun hid => by
      rw [Bool.not_eq_true, Option.isSome_eq_false_iff, Option.isNone_iff_eq_none] at hnone
      exact find?_eq_none_iff.1 hnone (hid ▸ mem_ids_of_mem_tasks ht)
    exact ⟨t, ht, rfl, rfl, by rw [if_neg hid]⟩

theorem consistent_settleTask (h : list.Consistent) (site : Site) (n : Note) :
    (settleTask list site n).Consistent := by
  unfold settleTask
  split
  · exact h.complete site n
  · exact h

theorem serial_noteInto (serial : Nat) (site : Site) (n : Note) :
    (noteInto serial site n st).serial = st.serial := by
  unfold noteInto
  split <;> rfl

theorem Tracks.settle (h : Tracks list st) (site : Site) (n : Note) :
    Tracks (settleTask list site n) (noteInto st.serial site n st) where
  keyed := keyed_noteInto h.keyed _ _ _
  consistent := consistent_settleTask h.consistent site n
  resubmit := (resubmit_settleTask ..).trans h.resubmit
  serial t ht := by
    obtain ⟨old, hold, -, hdetail, -⟩ := mem_tasks_settleTask ht
    rw [hdetail, serial_noteInto, h.serial old hold]
  waiting t ht hwaits := by
    obtain ⟨old, hold, hid, -, hdone⟩ := mem_tasks_settleTask ht
    rw [undescribed_noteInto h.keyed, hid]
    split at hdone
    · rw [hwaits] at hdone
      cases hdone
    · next hother => exact ⟨h.waiting old hold (hdone ▸ hwaits), hother⟩
  submitted t ht hdone := by
    obtain ⟨old, hold, hid, -, holdDone⟩ := mem_tasks_settleTask ht
    refine isSome_noteOn_noteInto h.keyed site t.id n ?_
    rw [hid]
    split at holdDone
    · next hsame => exact .inl hsame
    · exact .inr (h.submitted old hold (holdDone ▸ hdone))

/-! ## Requests about notes -/

/-- A repository is set up, and the list has its tasks. -/
def Tracked (s : Service) : Prop := ∃ st, s.setup = some st ∧ Tracks s.todo st

theorem filesAside_tracked : FilesAside Tracked := fun _ _ h => h

theorem on_fillTodo_arbitrary (hst : s.setup = some st) :
    (fillTodo .arbitrary true).on s = (.ok (), { s with
      todo := (allSites st.indexer.index).foldl (enqueue st.indexer.index st.serial true)
        s.todo }) :=
  on_fillTodo hst rfl

theorem keeps_tracked_fillTodo : Keeps Tracked (fillTodo .arbitrary true) := by
  rintro s ⟨st, hst, htracks⟩
  rw [on_fillTodo_arbitrary hst]
  exact ⟨st, hst, htracks.fill⟩

theorem keeps_tracked_takeNote [Library] (site : Site) (n : Note) :
    Keeps Tracked (takeNote site n) := by
  rintro s ⟨st, hst, htracks⟩
  rw [on_takeNote htracks.resubmit, hst]
  refine (filesAside_tracked.keeps_persist.discard.bind fun _ => keeps_pure _) _ ⟨_, rfl, ?_⟩
  rw [htracks.addressee_eq]
  exact htracks.settle site n

/-- A request about notes: the definitions without one are put on the list, or a note is taken.
Anything can happen to the files in between. -/
def Request.AboutNotes : Request → Prop
  | .change _ | .fillTodo .arbitrary true | .startTodo | .takeNote _ _ | .submit _ _ => True
  | _ => False

theorem keeps_tracked_tool [Library] (parse : Parser) {r : Request} (hr : r.AboutNotes) :
    Keeps Tracked (r.tool parse) := by
  unfold Request.AboutNotes at hr
  split at hr
  · exact keeps_modify fun s hs => hs
  · exact keeps_tracked_fillTodo
  · exact (filesAside_tracked.keeps_logCall.bind fun _ =>
      keeps_tracked_fillTodo.bind fun _ => keeps_pure _).discard
  · exact (keeps_tracked_takeNote _ _).discard
  · exact (filesAside_tracked.keeps_logCall.bind fun _ => keeps_tracked_takeNote _ _).discard
  · exact hr.elim

/-- A repository that has been set up has its records at their own places, and the list is as it
was. -/
theorem exists_setup_of_setUp [Library] {parse : Parser} {repo : Path} {language : Text}
    {choice : CacheChoice} {answer : Text} {s' : Service}
    (h : (setUp parse repo language choice).on s = (.ok answer, s')) :
    ∃ st, s'.setup = some st ∧ st.indexer.Keyed ∧ s'.todo = s.todo := by
  have hother : Indifferent fun t =>
      ∃ st, t.setup = some st ∧ st.indexer.Keyed ∧ t.todo = s.todo :=
    ⟨fun _ _ ht => ht, fun _ st _ hst ⟨_, _, _, htodo⟩ => ⟨st, rfl, hst, htodo⟩⟩
  cases hl : Language.byName? language with
  | none =>
    rw [setUp, hl] at h
    cases h
  | some l =>
    have hst : (Indexer.start l .linked true).Keyed := .start l true
    rw [on_setUp hl] at h
    obtain rfl := congrArg Prod.snd h
    exact hother.keeps_loadOrFill parse hst repo choice s.nextSerial s.files _ _ ⟨_, rfl, hst, rfl⟩

/-- After `setUp` with an empty list and after any requests that are `AboutNotes`, what `pendingIds`
has is `Undescribed`. If `fillTodo` then puts what has no note on the list, `pendingIds` has exactly
what is `Undescribed`, each definition once. -/
theorem pending_undescribed [Library] (parse : Parser) {s s₀ : Service} {name : Text}
    (hempty : s.todo = .empty name true) {repo : Path} {language : Text} {choice : CacheChoice}
    {answer : Text} (hsetUp : (setUp parse repo language choice).on s = (.ok answer, s₀))
    {requests : List Request} (hrequests : ∀ r ∈ requests, r.AboutNotes) :
    ∃ st, (serve parse s₀ requests).setup = some st ∧
      (serve parse s₀ requests).todo.TellsWaiting ∧
      (∀ site ∈ (serve parse s₀ requests).todo.pendingIds none 0,
        Undescribed st.indexer.index site) ∧
      ∃ s₁, (fillTodo .arbitrary true).on (serve parse s₀ requests) = (.ok (), s₁) ∧
        s₁.setup = some st ∧ s₁.todo.TellsWaiting ∧ (s₁.todo.pendingIds none 0).Nodup ∧
        ∀ site, site ∈ s₁.todo.pendingIds none 0 ↔ Undescribed st.indexer.index site := by
  obtain ⟨st₀, hst₀, hkeyed, htodo⟩ := exists_setup_of_setUp hsetUp
  have htracked : s₀.Tracked := ⟨st₀, hst₀, by rw [htodo, hempty]; exact .empty hkeyed name⟩
  obtain ⟨st, hst, htracks⟩ : (serve parse s₀ requests).Tracked :=
    keeps_serve (fun r hr => keeps_tracked_tool parse (hrequests r hr)) htracked
  refine ⟨st, hst, htracks.consistent.tellsWaiting, fun _ => htracks.undescribed_of_pending, _,
    on_fillTodo_arbitrary hst, hst, htracks.fill.consistent.tellsWaiting,
    htracks.fill.consistent.nodup_pendingIds, fun _ => htracks.mem_pendingIds_fill⟩

/-- The files of a repository with one function. -/
def oneFunction : Files :=
  let fs := ((Files.empty []).makeDirectories (.ofText "a")).1
  (fs.after (fs.write (.ofText "a/m.py") (.bytes "def f():\n    pass\n".toUTF8))).1

/-- A note on a method that the index does not know leaves the function on the list. -/
theorem pending_undescribed_oneFunction :
    letI := Library.standard
    ∃ answer s₀ st, (setUp (fun _ => twinTree) (.ofText "a") "python" .database).on
        (start oneFunction) = (.ok answer, s₀) ∧
      (serve (fun _ => twinTree) s₀ [.fillTodo .arbitrary true,
        .submit ⟨.method "f" (some "A"), twinSite.location⟩ twinNote]).setup = some st ∧
      (serve (fun _ => twinTree) s₀ [.fillTodo .arbitrary true,
        .submit ⟨.method "f" (some "A"), twinSite.location⟩ twinNote]).todo.pendingIds none 0 =
          [twinSite] ∧
      Undescribed st.indexer.index twinSite := by
  let _ := Library.standard
  have hok : ((setUp (fun _ => twinTree) (.ofText "a") "python" .database).on
      (start oneFunction)).1.toOption =
        some "Success: indexed repository at a with language 'python'" := by decide +kernel
  have hon := on_of_toOption hok
  have hpending : (serve (fun _ => twinTree) ((setUp (fun _ => twinTree) (.ofText "a") "python"
      .database).on (start oneFunction)).2 [.fillTodo .arbitrary true,
        .submit ⟨.method "f" (some "A"), twinSite.location⟩ twinNote]).todo.pendingIds none 0 =
          [twinSite] := by decide +kernel
  obtain ⟨st, hst, -, hundescribed, -⟩ := @pending_undescribed _ (fun _ => twinTree) _ _ _ rfl
    _ _ _ _ hon [.fillTodo .arbitrary true,
      .submit ⟨.method "f" (some "A"), twinSite.location⟩ twinNote] (by simp [Request.AboutNotes])
  exact ⟨_, _, st, hon, hst, hpending, hundescribed _ (hpending ▸ .head _)⟩

end CallAtlas.Service
