import CallAtlas.Proofs.Todo.Submissions
import Mathlib.Data.List.Induction

/-! # The history of submissions

A list keeps the identities of its submissions in their order. When submitted tasks are taken out,
each of them takes one entry with it, also if it was submitted more than once. So at any time an
identity stands in the history as often as its submissions have counted, less the times that its
task was taken out (`Account.count_recent`). An entry outlives its task just when the task is taken
out while it stands in the history twice (`Recorded.historyStands_apply`).

* `run_history_iff`: for every run, how often each identity stands in the history, when all entries
  are those of submitted tasks, and for which numbers the last submissions are as many as are asked
  for. -/

namespace CallAtlas.TodoList

variable {ι ρ τ σ ε : Type}

/-! ## The last submissions -/

theorem lastSubmitted_zero (l : TodoList ι ρ τ) : l.lastSubmitted 0 = l.recent := by
  simp [lastSubmitted, window, cut]

theorem lastSubmitted_of_pos (l : TodoList ι ρ τ) {n : Nat} (h : 0 < n) :
    l.lastSubmitted n = l.recent.drop (l.recent.length - n) := by
  have hcut : cut l.recent.length (-(n : Int)) = l.recent.length - n := by
    unfold cut
    rw [if_pos (by omega)]
    omega
  simp [lastSubmitted, window, hcut]

/-- As many of the last submissions as are asked for, or all of them if there are no more. -/
def GivesLast (l : TodoList ι ρ τ) (n : Nat) : Prop :=
  l.lastSubmitted n <:+ l.recent ∧ (l.lastSubmitted n).length = min n l.recent.length

/-- Only when none is asked for there may be too many. -/
theorem givesLast_iff (l : TodoList ι ρ τ) (n : Nat) : l.GivesLast n ↔ n ≠ 0 ∨ l.recent = [] := by
  unfold GivesLast
  rcases Nat.eq_zero_or_pos n with rfl | hn
  · show l.lastSubmitted 0 <:+ l.recent ∧ (l.lastSubmitted 0).length = min 0 l.recent.length ↔ _
    rw [lastSubmitted_zero]
    simp
  · rw [lastSubmitted_of_pos l hn, List.length_drop]
    refine ⟨fun _ => .inl (by omega), fun _ => ⟨List.drop_suffix _ _, by omega⟩⟩

variable [BEq ι]

/-! ## Taking out -/

section TakingOut

variable [EquivBEq ι] {l : TodoList ι ρ τ} {id : ι}

/-- One entry goes, and it is that of the identity that is taken out. -/
theorem count_eraseP {ids : List ι} {gone : ι} (h : ids.contains gone = true) (id : ι) :
    (ids.eraseP fun r => r == gone).count id + (if gone == id then 1 else 0) = ids.count id := by
  obtain ⟨r, hr, hgone⟩ := List.contains_iff_exists_mem_beq.1 h
  obtain ⟨a, before, after, -, ha, heq, herase⟩ :=
    List.exists_of_eraseP (p := fun r => r == gone) hr (BEq.symm hgone)
  rw [herase, heq, List.count_append, List.count_append, List.count_cons, BEq.congr_left ha]
  omega

theorem contains_of_count_pos {ids : List ι} (h : 0 < ids.count id) : ids.contains id = true := by
  obtain ⟨r, hr, hrid⟩ := List.countP_pos_iff.1 h
  exact List.contains_iff_exists_mem_beq.2 ⟨r, hr, BEq.symm hrid⟩

theorem count_pos_of_contains {ids : List ι} (h : ids.contains id = true) : 0 < ids.count id := by
  obtain ⟨r, hr, hrid⟩ := List.contains_iff_exists_mem_beq.1 h
  exact List.countP_pos_iff.2 ⟨r, hr, BEq.symm hrid⟩

theorem count_pos_of_mem {ids : List ι} (h : id ∈ ids) : 0 < ids.count id :=
  List.countP_pos_iff.2 ⟨id, h, BEq.rfl⟩

theorem pairwise_iff_count_le_one {ids : List ι} :
    (ids.Pairwise fun a b => (a == b) = false) ↔ ∀ id, ids.count id ≤ 1 := by
  induction ids with
  | nil => simp
  | cons first ids ih =>
    rw [List.pairwise_cons, ih]
    constructor
    · rintro ⟨hfirst, hrest⟩ id
      rw [List.count_cons]
      split
      · next hid =>
        have hnone : ids.count id = 0 := by
          refine List.countP_eq_zero.2 fun other hother hsame => ?_
          have hapart := hfirst other hother
          rw [BEq.trans hid (BEq.symm hsame)] at hapart
          cases hapart
        omega
      · exact hrest id
    · intro hone
      refine ⟨fun other hother => ?_, fun id => ?_⟩
      · have hle := hone other
        have hpos := count_pos_of_mem hother
        rw [List.count_cons] at hle
        by_contra hsame
        rw [if_pos (by simpa using hsame)] at hle
        omega
      · exact (List.count_le_count_cons ..).trans (hone id)

/-- Each task that is taken out takes one entry with it. -/
theorem count_foldl_forget {gone : List ι} (hgone : gone.Pairwise fun a b => (a == b) = false)
    (hrecent : ∀ id ∈ gone, l.recent.contains id = true) (id : ι) :
    (gone.foldl forget l).recent.count id + gone.count id = l.recent.count id := by
  induction gone generalizing l with
  | nil => simp
  | cons first gone ih =>
    obtain ⟨hfirst, hgone⟩ := List.pairwise_cons.1 hgone
    have hcount := count_eraseP (hrecent first (by simp))
    have hrest : ∀ id ∈ gone, (l.forget first).recent.contains id = true := by
      intro id hid
      apply contains_of_count_pos
      have hentry := count_pos_of_contains (hrecent id (by simp [hid]))
      have hone := hcount id
      rw [hfirst id hid] at hone
      simp only [forget, settle]
      simp only [Bool.false_eq_true, if_false, Nat.add_zero] at hone
      omega
    have hrun := ih hgone hrest
    have hone := hcount id
    rw [List.foldl_cons, List.count_cons]
    simp only [forget, settle] at hrun ⊢
    omega

omit [EquivBEq ι] in
theorem mem_tasks_foldl_forget {gone : List ι} {t : Task ι ρ τ} :
    t ∈ (gone.foldl forget l).tasks ↔ t ∈ l.tasks ∧ ∀ id ∈ gone, (t.id == id) = false := by
  induction gone generalizing l with
  | nil => simp
  | cons first gone ih =>
    rw [List.foldl_cons, ih]
    simp [forget, settle, and_assoc]

/-- After submitted tasks are taken out none is left. -/
theorem submitted_of_mem_clearSubmitted {t : Task ι ρ τ} (ht : t ∈ l.clearSubmitted.1.tasks) :
    t.submitted = false := by
  obtain ⟨ht, hleft⟩ := mem_tasks_foldl_forget.1 ht
  by_contra hdone
  have hgone := hleft t.id (List.mem_map_of_mem (List.mem_filter.2 ⟨ht, by simpa using hdone⟩))
  rw [BEq.rfl] at hgone
  cases hgone

end TakingOut

/-! ## Accounts of runs -/

/-- The submissions that count in a step. -/
def Step.Counts (st : TodoList ι ρ τ × σ) (ids : List ι) : Step ι ρ τ σ ε → Prop
  | .submit react _ id value => TodoList.Counts (TodoList.submit react id value) st ids
  | _ => ids = []

/-- The identities of the tasks that a step takes out. -/
def Step.takesOut (st : TodoList ι ρ τ × σ) : Step ι ρ τ σ ε → List ι
  | .clearSubmitted => (st.1.tasks.filter Task.submitted).map Task.id
  | _ => []

/-- In some steps the submissions of `counted` come to count, one after the other, and the tasks of
`gone` are taken out. -/
inductive Account : TodoList ι ρ τ × σ → List (Step ι ρ τ σ ε) → List ι → List ι → Prop
  | nil (st : TodoList ι ρ τ × σ) : Account st [] [] []
  | cons {st : TodoList ι ρ τ × σ} {step : Step ι ρ τ σ ε} {steps : List (Step ι ρ τ σ ε)}
      {ids counted gone : List ι} (h : step.Counts st ids)
      (hrest : Account (step.apply st) steps counted gone) :
      Account st (step :: steps) (ids ++ counted) (step.takesOut st ++ gone)

theorem Step.exists_counts (st : TodoList ι ρ τ × σ) (step : Step ι ρ τ σ ε) :
    ∃ ids, step.Counts st ids := by
  cases step with
  | submit react orderly id value => exact (Orderly.submit orderly id value).exists_counts st
  | _ => exact ⟨[], rfl⟩

/-- There is an account of all steps. -/
theorem exists_account (st : TodoList ι ρ τ × σ) (steps : List (Step ι ρ τ σ ε)) :
    ∃ counted gone, Account st steps counted gone := by
  induction steps generalizing st with
  | nil => exact ⟨[], [], .nil st⟩
  | cons step steps ih =>
    obtain ⟨ids, hids⟩ := step.exists_counts st
    obtain ⟨counted, gone, hrest⟩ := ih (step.apply st)
    exact ⟨_, _, .cons hids hrest⟩

/-- A list as runs leave it: it is consistent, and every task that is submitted has an entry in the
history. -/
structure Recorded (l : TodoList ι ρ τ) : Prop where
  consistent : l.Consistent
  entry : ∀ t ∈ l.tasks, t.submitted = true → l.recent.contains t.id = true

namespace Recorded

theorem empty (name : Text) (resubmit : Bool) :
    (TodoList.empty name resubmit : TodoList ι ρ τ).Recorded :=
  ⟨.empty name resubmit, fun t ht => (by cases ht)⟩

variable {l : TodoList ι ρ τ} {st : TodoList ι ρ τ × σ}

theorem complete (h : l.Recorded) (id : ι) (value : ρ) : (l.complete id value).Recorded where
  consistent := h.consistent.complete id value
  entry := by
    intro t ht hdone
    show (l.recent ++ [id]).contains t.id = true
    obtain ⟨old, hold, rfl⟩ := List.mem_map.1 ht
    rw [List.contains_append, Bool.or_eq_true]
    by_cases hid : (old.id == id) = true
    · right
      simp [hid]
    · left
      simp only [hid] at hdone ⊢
      exact h.entry old hold hdone

variable [EquivBEq ι]

theorem adding (h : st.1.Recorded) (id : ι) (detail : τ) :
    (TodoList.adding id detail st : _ × Option (TodoError ι ε)).1.1.Recorded where
  consistent := h.consistent.adding id detail
  entry := by
    intro t
    rw [adding_eq]
    split
    · exact h.entry t
    · intro ht hdone
      rcases List.mem_append.1 ht with ht | ht
      · exact h.entry t ht hdone
      · rw [List.mem_singleton.1 ht] at hdone
        cases hdone

theorem clearSubmitted (h : l.Recorded) : l.clearSubmitted.1.Recorded where
  consistent := h.consistent.clearSubmitted
  entry := by
    intro t ht hdone
    rw [submitted_of_mem_clearSubmitted ht] at hdone
    cases hdone

/-- The history of a list whose submitted tasks are taken out. -/
theorem count_clearSubmitted (h : l.Recorded) (id : ι) :
    l.clearSubmitted.1.recent.count id + ((l.tasks.filter Task.submitted).map Task.id).count id =
      l.recent.count id := by
  refine count_foldl_forget ?_ (fun id hid => ?_) id
  · exact List.pairwise_map.2 (h.consistent.distinct.filter _)
  · obtain ⟨t, ht, rfl⟩ := List.mem_map.1 hid
    obtain ⟨ht, hdone⟩ := List.mem_filter.1 ht
    exact h.entry t ht hdone

/-- In one step the history changes by what counts and what is taken out. -/
theorem apply (h : st.1.Recorded) {step : Step ι ρ τ σ ε} {ids : List ι}
    (hstep : step.Counts st ids) : (step.apply st).1.Recorded ∧ ∀ id,
      (step.apply st).1.recent.count id + (step.takesOut st).count id =
        st.1.recent.count id + ids.count id := by
  cases step with
  | submit react orderly id value =>
    have hcounts : TodoList.Counts (TodoList.submit react id value) st ids := hstep
    refine ⟨hcounts.keeps (P := Recorded) (fun st id detail hst => hst.adding id detail)
      (fun l id _ value hl => hl.complete id value) h, fun id' => ?_⟩
    show (TodoList.submit react id value st).1.1.recent.count id' + 0 = _
    rw [hcounts.recent_eq, List.count_append]
    rfl
  | clearSubmitted =>
    obtain rfl : ids = [] := hstep
    exact ⟨h.clearSubmitted, h.count_clearSubmitted⟩
  | add id detail =>
    obtain rfl : ids = [] := hstep
    refine ⟨h.adding id detail, fun id' => ?_⟩
    show (TodoList.adding id detail st : _ × Option (TodoError ι ε)).1.1.recent.count id' + 0 = _
    rw [(TodoList.Counts.add id detail st).recent_eq, List.append_nil]
    rfl
  | takePending =>
    obtain rfl : ids = [] := hstep
    simp [Step.apply, Step.takesOut, h.consistent.takePending_eq, h]
  | visit id =>
    obtain rfl : ids = [] := hstep
    simp [Step.apply, Step.takesOut, h.consistent.visit_eq, h]
  | anyPending =>
    obtain rfl : ids = [] := hstep
    simp [Step.apply, Step.takesOut, h.consistent.anyPending_eq, h]

theorem foldl_apply (h : st.1.Recorded) (steps : List (Step ι ρ τ σ ε)) :
    (steps.foldl Step.apply st).1.Recorded := by
  induction steps generalizing st with
  | nil => exact h
  | cons step steps ih =>
    obtain ⟨ids, hids⟩ := step.exists_counts st
    exact ih (h.apply hids).1

end Recorded

/-- Over a run an identity stands in the history as often as its submissions have counted, less the
times that its task was taken out. -/
theorem Account.count_recent [EquivBEq ι] {st : TodoList ι ρ τ × σ} {steps : List (Step ι ρ τ σ ε)}
    {counted gone : List ι} (h : Account st steps counted gone) (hst : st.1.Recorded) (id : ι) :
    (steps.foldl Step.apply st).1.recent.count id + gone.count id =
      st.1.recent.count id + counted.count id := by
  induction h with
  | nil st => rfl
  | cons hstep _ ih =>
    obtain ⟨hnext, hcount⟩ := hst.apply hstep
    have hone := hcount id
    have hrest := ih hnext
    rw [List.foldl_cons, List.count_append, List.count_append]
    omega

/-! ## Entries and their tasks -/

/-- Every entry of the history is that of a task that is in the list and submitted. -/
def HistoryStands (l : TodoList ι ρ τ) : Prop := ∀ id ∈ l.recent, l.isSubmitted id = true

/-- No identity stands twice in the history. -/
def HistorySingle (l : TodoList ι ρ τ) : Prop :=
  l.recent.Pairwise fun a b => (a == b) = false

/-- Tasks stay in a list, and what is submitted stays so. -/
def Grows (l l' : TodoList ι ρ τ) : Prop :=
  ∀ id t, l.find? id = some t →
    ∃ t', l'.find? id = some t' ∧ (t.submitted = true → t'.submitted = true)

theorem isSubmitted_iff {l : TodoList ι ρ τ} {id : ι} :
    l.isSubmitted id = true ↔ ∃ t, l.find? id = some t ∧ t.submitted = true := by
  simp only [isSubmitted, Option.any_eq_true]

namespace Grows

variable {l₁ l₂ l₃ : TodoList ι ρ τ}

theorem refl (l : TodoList ι ρ τ) : Grows l l := fun _ t ht => ⟨t, ht, id⟩

theorem trans (h₁ : Grows l₁ l₂) (h₂ : Grows l₂ l₃) : Grows l₁ l₃ := by
  intro id t ht
  obtain ⟨t', ht', hdone⟩ := h₁ id t ht
  obtain ⟨t'', ht'', hdone'⟩ := h₂ id t' ht'
  exact ⟨t'', ht'', fun h => hdone' (hdone h)⟩

theorem isSubmitted (h : Grows l₁ l₂) {id : ι} (hid : l₁.isSubmitted id = true) :
    l₂.isSubmitted id = true := by
  obtain ⟨t, ht, hdone⟩ := isSubmitted_iff.1 hid
  obtain ⟨t', ht', hdone'⟩ := h id t ht
  exact isSubmitted_iff.2 ⟨t', ht', hdone' hdone⟩

end Grows

theorem grows_complete (l : TodoList ι ρ τ) (id : ι) (value : ρ) :
    Grows l (l.complete id value) := by
  intro id' t ht
  rw [find?_complete, ht]
  refine ⟨_, rfl, fun hdone => ?_⟩
  show (if t.id == id then { t with submitted := true, result := some value }
    else t).submitted = true
  split
  · rfl
  · exact hdone

theorem grows_adding (id : ι) (detail : τ) (st : TodoList ι ρ τ × σ) :
    Grows st.1 (adding id detail st : _ × Option (TodoError ι ε)).1.1 := by
  rw [adding_eq]
  split
  · exact .refl st.1
  · intro id' t ht
    refine ⟨t, ?_, fun hdone => hdone⟩
    simp only [find?] at ht ⊢
    rw [List.find?_append, ht, Option.some_or]

theorem Counts.grows {deed : Deed ι ρ τ σ ε} {st : TodoList ι ρ τ × σ} {ids : List ι}
    (h : TodoList.Counts deed st ids) : Grows st.1 (deed st).1.1 := by
  refine h.keeps (P := Grows st.1) (fun st id detail hst => ?_) (fun l id _ value hl => ?_)
    (.refl st.1)
  · exact hst.trans (grows_adding id detail st)
  · exact hl.trans (grows_complete l id value)

variable [EquivBEq ι]

/-- A task whose submission has counted is submitted from then on. -/
theorem Counts.isSubmitted {deed : Deed ι ρ τ σ ε} {st : TodoList ι ρ τ × σ} {ids : List ι}
    (h : TodoList.Counts deed st ids) : ∀ id ∈ ids, (deed st).1.1.isSubmitted id = true := by
  induction h with
  | apart _ => simp
  | add => simp
  | failed htask hreact _ ih =>
    rw [submit_of_error htask hreact]
    rw [hreact] at ih
    exact ih
  | @counted react id value st after task ids htask hreact h ih =>
    have hgrows := h.grows
    rw [hreact] at ih hgrows
    rw [submit_of_none htask hreact]
    intro id' hid'
    rcases List.mem_append.1 hid' with hid' | hid'
    · exact (grows_complete after.1 id value).isSubmitted (ih id' hid')
    · -- the task is still there when its reaction has run
      obtain ⟨t, ht, -⟩ := hgrows id task htask.find?
      rw [List.mem_singleton.1 hid']
      exact isSubmitted_iff.2 ⟨_, (settled_complete ht value).task, rfl⟩
  | next _ hgo ih ihgo =>
    intro id hid
    rcases List.mem_append.1 hid with hid | hid
    · exact hgo.grows.isSubmitted (ih id hid)
    · exact ihgo id hid

/-- If all entries are those of submitted tasks, then after these are taken out an entry is left iff
an identity stood twice in the history. -/
theorem Recorded.historyStands_clearSubmitted {l : TodoList ι ρ τ} (h : l.Recorded)
    (hstands : l.HistoryStands) : l.clearSubmitted.1.HistoryStands ↔ l.HistorySingle := by
  have hnone : l.clearSubmitted.1.HistoryStands ↔ l.clearSubmitted.1.recent = [] := by
    refine ⟨fun hleft => List.eq_nil_iff_forall_not_mem.2 fun id hid => ?_, fun hnil => ?_⟩
    · obtain ⟨t, ht, hdone⟩ := isSubmitted_iff.1 (hleft id hid)
      rw [submitted_of_mem_clearSubmitted (mem_of_find? ht).1] at hdone
      cases hdone
    · rw [HistoryStands, hnil]
      simp
  have hgone : ∀ id, ((l.tasks.filter Task.submitted).map Task.id).count id ≤ 1 :=
    pairwise_iff_count_le_one.1 (List.pairwise_map.2 (h.consistent.distinct.filter _))
  rw [hnone, HistorySingle, pairwise_iff_count_le_one]
  constructor
  · intro hnil id
    rw [← h.count_clearSubmitted id, hnil, List.count_nil, Nat.zero_add]
    exact hgone id
  · intro hone
    refine List.eq_nil_iff_forall_not_mem.2 fun id hid => ?_
    have hcount := h.count_clearSubmitted id
    have hentry := count_pos_of_mem hid
    -- the entry was there before, so its task is submitted and took an entry with it
    obtain ⟨r, hr, hrid⟩ := List.countP_pos_iff.1 (show 0 < l.recent.count id by omega)
    obtain ⟨t, ht, hdone⟩ := isSubmitted_iff.1 (hstands r hr)
    have htaken : 0 < ((l.tasks.filter Task.submitted).map Task.id).count id := by
      refine List.countP_pos_iff.2 ⟨t.id, ?_, BEq.trans (mem_of_find? ht).2 hrid⟩
      exact List.mem_map_of_mem (List.mem_filter.2 ⟨(mem_of_find? ht).1, hdone⟩)
    have := hone id
    omega

/-- A step leaves entries without their tasks iff it takes out tasks while an identity stands twice
in the history. -/
theorem Recorded.historyStands_apply {st : TodoList ι ρ τ × σ} (h : st.1.Recorded)
    (hstands : st.1.HistoryStands) (step : Step ι ρ τ σ ε) :
    (step.apply st).1.HistoryStands ↔ (step = .clearSubmitted → st.1.HistorySingle) := by
  cases step with
  | clearSubmitted =>
    rw [forall_prop_of_true rfl]
    exact h.historyStands_clearSubmitted hstands
  | submit react orderly id value =>
    obtain ⟨ids, hcounts⟩ := (Orderly.submit orderly id value).exists_counts st
    refine iff_of_true (fun id' hid' => ?_) (fun hstep => (by cases hstep))
    have hrecent : id' ∈ (TodoList.submit react id value st).1.1.recent := hid'
    rw [hcounts.recent_eq] at hrecent
    rcases List.mem_append.1 hrecent with hold | hnew
    · exact hcounts.grows.isSubmitted (hstands id' hold)
    · exact hcounts.isSubmitted id' hnew
  | add id detail =>
    refine iff_of_true (fun id' hid' => ?_) (fun hstep => (by cases hstep))
    have hrecent : id' ∈ (TodoList.adding id detail st : _ × Option (TodoError ι ε)).1.1.recent :=
      hid'
    rw [(TodoList.Counts.add id detail st).recent_eq, List.append_nil] at hrecent
    exact (grows_adding id detail st).isSubmitted (hstands id' hrecent)
  | takePending => simpa [Step.apply, h.consistent.takePending_eq] using hstands
  | visit id => simpa [Step.apply, h.consistent.visit_eq] using hstands
  | anyPending => simpa [Step.apply, h.consistent.anyPending_eq] using hstands

/-! ## Runs -/

section Runs

variable (name : Text) (resubmit : Bool) (around : σ)

omit [EquivBEq ι] in
theorem run_concat (steps : List (Step ι ρ τ σ ε)) (step : Step ι ρ τ σ ε) :
    run name resubmit around (steps ++ [step]) = step.apply (run name resubmit around steps) := by
  simp [run]

theorem recorded_run (steps : List (Step ι ρ τ σ ε)) :
    (run name resubmit around steps).1.Recorded :=
  Recorded.foldl_apply (.empty name resubmit) steps

/-- At all times of a run all entries are those of submitted tasks iff no identity stands twice in
the history whenever tasks are taken out. -/
theorem historyStands_run_iff (steps : List (Step ι ρ τ σ ε)) :
    (∀ done, done <+: steps → (run name resubmit around done).1.HistoryStands) ↔
      ∀ done, done ++ [.clearSubmitted] <+: steps →
        (run name resubmit around done).1.HistorySingle := by
  constructor
  · intro hstands done hdone
    have hbefore := hstands done ((List.prefix_append ..).trans hdone)
    have hafter := hstands _ hdone
    rw [run_concat, (recorded_run name resubmit around done).historyStands_apply hbefore] at hafter
    exact hafter rfl
  · intro hsingle done hdone
    induction done using List.reverseRecOn with
    | nil => exact fun id hid => (by cases hid)
    | append_singleton done step ih =>
      have hbefore := ih ((List.prefix_append ..).trans hdone)
      rw [run_concat, (recorded_run name resubmit around done).historyStands_apply hbefore]
      rintro rfl
      exact hsingle done hdone

/-- After every `run` an identity stands in `recent` as often as its submissions have counted, less
the times that its task was taken out (`Account`). At all times of the run `HistoryStands`, all
entries being those of submitted tasks, iff `HistorySingle` whenever tasks are taken out, no
identity standing twice. And the list `GivesLast n` for every `n` but zero, for which all
submissions are given. -/
theorem run_history_iff (steps : List (Step ι ρ τ σ ε)) :
    (∃ counted gone, Account (.empty name resubmit, around) steps counted gone) ∧
    (∀ counted gone, Account (.empty name resubmit, around) steps counted gone →
      ∀ id, (run name resubmit around steps).1.recent.count id + gone.count id =
        counted.count id) ∧
    ((∀ done, done <+: steps → (run name resubmit around done).1.HistoryStands) ↔
      ∀ done, done ++ [.clearSubmitted] <+: steps →
        (run name resubmit around done).1.HistorySingle) ∧
    ∀ n, (run name resubmit around steps).1.GivesLast n ↔
      n ≠ 0 ∨ (run name resubmit around steps).1.recent = [] := by
  refine ⟨exists_account _ steps, fun counted gone h id => ?_,
    historyStands_run_iff name resubmit around steps, givesLast_iff _⟩
  have hcount := h.count_recent (.empty name resubmit) id
  simpa [TodoList.empty, run] using hcount

end Runs

/-! A task is submitted and then taken out. -/

def onceSubmitted : List (Step Nat Nat Bool Unit Unit) :=
  [.add 0 false, .submit quiet (fun _ _ _ => .apart fun _ => rfl) 0 1, .clearSubmitted]

def twiceSubmitted : List (Step Nat Nat Bool Unit Unit) :=
  [.add 0 false,
   .submit quiet (fun _ _ _ => .apart fun _ => rfl) 0 1,
   .submit quiet (fun _ _ _ => .apart fun _ => rfl) 0 2,
   .clearSubmitted]

/-- One submission goes with its task. Of two one stays in the history, though there is no task any
more. It is given if one is asked for, and also if none is. -/
theorem run_history_iff_twiceSubmitted :
    (∀ done, done <+: onceSubmitted → (run "todo" true () done).1.HistoryStands) ∧
    (¬ ∀ done, done <+: twiceSubmitted → (run "todo" true () done).1.HistoryStands) ∧
    (run "todo" true () twiceSubmitted).1.ids = [] ∧
    (run "todo" true () twiceSubmitted).1.recent = [0] ∧
    (run "todo" true () twiceSubmitted).1.GivesLast 1 ∧
    ¬ (run "todo" true () twiceSubmitted).1.GivesLast 0 := by
  obtain ⟨-, -, honce, -⟩ := run_history_iff "todo" true () onceSubmitted
  obtain ⟨-, -, htwice, hlast⟩ := run_history_iff "todo" true () twiceSubmitted
  refine ⟨honce.2 ?_, fun h => ?_, rfl, rfl, (hlast 1).2 (.inl (by decide)), fun h => ?_⟩
  · rintro done ⟨rest, hrest⟩
    rcases done with _ | ⟨first, _ | ⟨second, _ | ⟨third, done⟩⟩⟩
    all_goals simp [onceSubmitted] at hrest
    obtain ⟨rfl, rfl, -⟩ := hrest
    exact List.pairwise_singleton _ _
  · have hsingle := htwice.1 h (twiceSubmitted.take 3) (List.prefix_refl _)
    have hrecent : (run "todo" true () (twiceSubmitted.take 3)).1.recent = [0, 0] := rfl
    rw [HistorySingle, hrecent] at hsingle
    simp at hsingle
  · rcases (hlast 0).1 h with hzero | hnil
    · exact hzero rfl
    · cases hnil

end CallAtlas.TodoList
