import CallAtlas.Proofs.Todo.Pending

/-! # Submissions

The reaction of a task runs in the middle of its submission and sees the same list. It may add tasks
and submit tasks, whose reactions run in turn, and all of these may fail or not. `Counts` tells
which submissions come to count on the way. Where no submission of a task counts, at whatever depth,
all that a list tells of the task stays as it was (`Counts.sameAt`), so a submission is all or
nothing for its task.

* `submit_all_or_nothing`: a submission that fails leaves its task as it was, and one that does not
  fail has run its reaction once, to its end, and settles its task. -/

namespace CallAtlas.TodoList

variable {ι ρ τ σ ε : Type} [BEq ι]

/-! ## The task of an identity -/

/-- Two lists tell the same of the task of an identity: what it is, whether it is pending, and how
often it was submitted of late. -/
structure SameAt (id : ι) (l l' : TodoList ι ρ τ) : Prop where
  task : l'.find? id = l.find? id
  pending : l'.pending.contains id = l.pending.contains id
  recent : l'.recent.count id = l.recent.count id

/-- The task of an identity is submitted with a value, after all other submissions. -/
structure Settled (id : ι) (value : ρ) (task : Task ι ρ τ) (l : TodoList ι ρ τ) : Prop where
  task : l.find? id = some { task with submitted := true, result := some value }
  pending : l.pending.contains id = false
  recent : l.recent.getLast? = some id

theorem SameAt.refl (id : ι) (l : TodoList ι ρ τ) : SameAt id l l := ⟨rfl, rfl, rfl⟩

theorem SameAt.trans {id : ι} {l₁ l₂ l₃ : TodoList ι ρ τ} (h₁ : SameAt id l₁ l₂)
    (h₂ : SameAt id l₂ l₃) : SameAt id l₁ l₃ :=
  ⟨h₂.task.trans h₁.task, h₂.pending.trans h₁.pending, h₂.recent.trans h₁.recent⟩

theorem find?_complete (l : TodoList ι ρ τ) (other id : ι) (value : ρ) :
    (l.complete other value).find? id = (l.find? id).map fun t =>
      if t.id == other then { t with submitted := true, result := some value } else t := by
  simp only [find?, complete, change, settle, List.find?_map]
  congr 2
  funext t
  simp only [Function.comp_apply]
  split <;> rfl

/-- A task is added at the end, unless there is one of its identity. -/
theorem adding_eq (id : ι) (detail : τ) (st : TodoList ι ρ τ × σ) :
    (adding id detail st : _ × Option (TodoError ι ε)).1.1 =
      if (st.1.find? id).isSome then st.1 else { st.1 with
        tasks := st.1.tasks ++ [⟨id, detail, false, none⟩]
        pending := if st.1.pending.contains id then st.1.pending else st.1.pending ++ [id] } := by
  unfold adding TodoList.add
  by_cases htaken : (st.1.find? id).isSome = true
  · rw [if_pos htaken, if_pos htaken]
  · rw [if_neg htaken, if_neg htaken]

section Frame

variable [EquivBEq ι] {l : TodoList ι ρ τ} {id other : ι}

theorem find?_congr (h : other == id) : l.find? other = l.find? id := by
  simp only [find?, BEq.congr_right h]

/-- A submission of another task tells nothing new of this one. -/
theorem sameAt_complete (l : TodoList ι ρ τ) (h : (other == id) = false) (value : ρ) :
    SameAt id l (l.complete other value) where
  task := by
    rw [find?_complete]
    cases hfind : l.find? id with
    | none => rfl
    | some t =>
      have hid := (mem_of_find? hfind).2
      have hne : (t.id == other) = false := by
        rw [BEq.congr_left hid, BEq.comm]
        exact h
      simp [hne]
  pending := by
    rw [Bool.eq_iff_iff, List.contains_iff_exists_mem_beq, List.contains_iff_exists_mem_beq]
    simp only [complete, change, settle, List.mem_filter]
    refine exists_congr fun p => and_congr_left fun hp => and_iff_left ?_
    rw [← BEq.congr_left hp, BEq.comm, h]
    rfl
  recent := by
    simp [complete, change, settle, List.count_append, List.count_singleton, h]

/-- The submission that counts settles its task. -/
theorem settled_complete {task : Task ι ρ τ} (h : l.find? id = some task) (value : ρ) :
    Settled id value task (l.complete id value) where
  task := by
    rw [find?_complete, h, Option.map_some, if_pos (mem_of_find? h).2]
  pending := by
    rw [Bool.eq_false_iff, Ne, List.contains_iff_exists_mem_beq]
    rintro ⟨p, hp, hpid⟩
    have hne := (List.mem_filter.1 hp).2
    rw [BEq.symm hpid] at hne
    cases hne
  recent := by simp [complete]

/-- No task can be added in the place of one that is there. -/
theorem sameAt_adding {st : TodoList ι ρ τ × σ} (h : (st.1.find? id).isSome) (other : ι)
    (detail : τ) :
    SameAt id st.1 (adding other detail st : _ × Option (TodoError ι ε)).1.1 := by
  rw [adding_eq]
  by_cases hsame : (other == id) = true
  · rw [find?_congr hsame, if_pos h]
    exact .refl id st.1
  · by_cases htaken : (st.1.find? other).isSome = true
    · rw [if_pos htaken]
      exact .refl id st.1
    · rw [if_neg htaken]
      have hne : (other == id) = false := by simpa using hsame
      refine ⟨?_, ?_, rfl⟩
      · simp [find?, List.find?_append, hne]
      · show (if st.1.pending.contains other then st.1.pending
          else st.1.pending ++ [other]).contains id = st.1.pending.contains id
        split
        · rfl
        · rw [List.contains_append, List.contains_cons, BEq.comm, hne]
          simp

end Frame

/-! ## Outcomes -/

/-- The task of an identity, if it can be submitted. -/
structure Submittable (l : TodoList ι ρ τ) (id : ι) (task : Task ι ρ τ) : Prop where
  find? : l.find? id = some task
  again : task.submitted = true → l.resubmit = true

/-- Why a submission fails: there is no such task, or it is submitted and cannot be submitted again,
or its reaction fails. -/
inductive Fails (react : Reaction ι ρ τ σ ε) (id : ι) (value : ρ) (st : TodoList ι ρ τ × σ) :
    TodoError ι ε → Prop
  | missing (h : st.1.find? id = none) : Fails react id value st (.missing id)
  | submitted {task : Task ι ρ τ} (h : st.1.find? id = some task) (hdone : task.submitted = true)
      (hre : st.1.resubmit = false) : Fails react id value st (.submitted id)
  | reaction {task : Task ι ρ τ} {e : TodoError ι ε} (h : Submittable st.1 id task)
      (hreact : (react task id value st).2 = some e) : Fails react id value st e

section Outcomes

variable {react : Reaction ι ρ τ σ ε} {id : ι} {value : ρ} {st after : TodoList ι ρ τ × σ}
  {task : Task ι ρ τ}

theorem Submittable.not_refused (h : Submittable st.1 id task) :
    ¬ (task.submitted && !st.1.resubmit) = true := by
  intro hrefused
  obtain ⟨hdone, hre⟩ := Bool.and_eq_true_iff.1 hrefused
  rw [h.again hdone] at hre
  cases hre

theorem submit_of_error (h : Submittable st.1 id task) {e : TodoError ι ε}
    (hreact : react task id value st = (after, some e)) :
    submit react id value st = (after, some e) := by
  simp only [submit, h.find?, if_neg h.not_refused, hreact]

theorem submit_of_none (h : Submittable st.1 id task)
    (hreact : react task id value st = (after, none)) :
    submit react id value st = ((after.1.complete id value, after.2), none) := by
  simp only [submit, h.find?, if_neg h.not_refused, hreact]

/-- A task that cannot be submitted is refused before anything is done. -/
theorem submit_of_not_submittable (react : Reaction ι ρ τ σ ε) (value : ρ)
    (h : ∀ task, ¬ Submittable st.1 id task) :
    ∃ e, submit react id value st = (st, some e) ∧ Fails react id value st e := by
  cases hfind : st.1.find? id with
  | none => exact ⟨.missing id, by simp only [submit, hfind], .missing hfind⟩
  | some task =>
    have hrefused : task.submitted = true ∧ st.1.resubmit = false := by
      by_contra hnot
      refine h task ⟨hfind, fun hdone => ?_⟩
      simpa [hdone] using hnot
    refine ⟨.submitted id, ?_, .submitted hfind hrefused.1 hrefused.2⟩
    simp [submit, hfind, hrefused]

end Outcomes

/-! ## Submissions that count -/

/-- While something is done with a list, the submissions of `ids` come to count, one after the
other. -/
inductive Counts : Deed ι ρ τ σ ε → TodoList ι ρ τ × σ → List ι → Prop
  | apart {deed : Deed ι ρ τ σ ε} {st : TodoList ι ρ τ × σ} (h : (deed st).1.1 = st.1) :
      Counts deed st []
  | add (id : ι) (detail : τ) (st : TodoList ι ρ τ × σ) : Counts (adding id detail) st []
  | failed {react : Reaction ι ρ τ σ ε} {id : ι} {value : ρ} {st after : TodoList ι ρ τ × σ}
      {task : Task ι ρ τ} {e : TodoError ι ε} {ids : List ι} (htask : Submittable st.1 id task)
      (hreact : react task id value st = (after, some e))
      (h : Counts (react task id value) st ids) :
      Counts (submit react id value) st ids
  | counted {react : Reaction ι ρ τ σ ε} {id : ι} {value : ρ} {st after : TodoList ι ρ τ × σ}
      {task : Task ι ρ τ} {ids : List ι} (htask : Submittable st.1 id task)
      (hreact : react task id value st = (after, none)) (h : Counts (react task id value) st ids) :
      Counts (submit react id value) st (ids ++ [id])
  | next {deed : Deed ι ρ τ σ ε} {go : (TodoList ι ρ τ × σ) × Option (TodoError ι ε) →
      Deed ι ρ τ σ ε} {st : TodoList ι ρ τ × σ} {ids more : List ι} (h : Counts deed st ids)
      (hgo : Counts (go (deed st)) (deed st).1 more) :
      Counts (fun st => go (deed st) (deed st).1) st (ids ++ more)

/-- Something is done without a submission of a task that counts. -/
def Spares (id : ι) (deed : Deed ι ρ τ σ ε) (st : TodoList ι ρ τ × σ) : Prop :=
  ∃ ids, Counts deed st ids ∧ ∀ other ∈ ids, (other == id) = false

/-- All that reactions can do comes with an account of the submissions that count. -/
theorem Orderly.exists_counts {deed : Deed ι ρ τ σ ε} (h : Orderly deed)
    (st : TodoList ι ρ τ × σ) : ∃ ids, Counts deed st ids := by
  induction h generalizing st with
  | apart hsame => exact ⟨[], .apart (hsame st)⟩
  | add id detail => exact ⟨[], .add id detail st⟩
  | @submit react _ id value ih =>
    by_cases hopen : ∃ task, Submittable st.1 id task
    · obtain ⟨task, htask⟩ := hopen
      obtain ⟨ids, hids⟩ := ih task id value st
      rcases hreact : react task id value st with ⟨after, _ | e⟩
      · exact ⟨ids ++ [id], .counted htask hreact hids⟩
      · exact ⟨ids, .failed htask hreact hids⟩
    · obtain ⟨e, he, -⟩ := submit_of_not_submittable react value
        fun task htask => hopen ⟨task, htask⟩
      exact ⟨[], .apart (by rw [he])⟩
  | next _ _ ih ihgo =>
    obtain ⟨ids, hids⟩ := ih st
    obtain ⟨more, hmore⟩ := ihgo _ _
    exact ⟨ids ++ more, .next hids hmore⟩

namespace Counts

variable {deed : Deed ι ρ τ σ ε} {st : TodoList ι ρ τ × σ} {ids : List ι}

/-- What is kept by adding tasks and by the submissions that count is kept by all that is done. -/
theorem keeps (h : Counts deed st ids) {P : TodoList ι ρ τ → Prop}
    (hadd : ∀ (st : TodoList ι ρ τ × σ) (id : ι) (detail : τ), P st.1 →
      P (adding id detail st : _ × Option (TodoError ι ε)).1.1)
    (hcomplete : ∀ l, ∀ id ∈ ids, ∀ value, P l → P (l.complete id value)) (hst : P st.1) :
    P (deed st).1.1 := by
  induction h with
  | apart hsame => rw [hsame]; exact hst
  | add id detail st => exact hadd st id detail hst
  | failed htask hreact _ ih =>
    rw [submit_of_error htask hreact]
    rw [hreact] at ih
    exact ih hcomplete hst
  | counted htask hreact _ ih =>
    rw [submit_of_none htask hreact]
    rw [hreact] at ih
    refine hcomplete _ _ (by simp) _ (ih (fun l id hid => ?_) hst)
    exact hcomplete l id (List.mem_append_left _ hid)
  | next _ _ ih ihgo =>
    refine ihgo (fun l id hid => hcomplete l id (List.mem_append_right _ hid)) (ih ?_ hst)
    exact fun l id hid => hcomplete l id (List.mem_append_left _ hid)

/-- The history goes on with the submissions that count. -/
theorem recent_eq (h : Counts deed st ids) : (deed st).1.1.recent = st.1.recent ++ ids := by
  induction h with
  | apart hsame => rw [hsame, List.append_nil]
  | add id detail st =>
    rw [adding_eq, List.append_nil]
    split <;> rfl
  | failed htask hreact _ ih =>
    rw [submit_of_error htask hreact]
    rw [hreact] at ih
    exact ih
  | counted htask hreact _ ih =>
    rw [submit_of_none htask hreact]
    rw [hreact] at ih
    exact (congrArg (· ++ [_]) ih).trans (List.append_assoc _ _ _)
  | next _ _ ih ihgo => rw [ihgo, ih, List.append_assoc]

/-- Where no submission of a task counts, all that is told of the task stays as it was. -/
theorem sameAt [EquivBEq ι] (h : Counts deed st ids) {id : ι} (hid : (st.1.find? id).isSome)
    (hspares : ∀ other ∈ ids, (other == id) = false) : SameAt id st.1 (deed st).1.1 := by
  refine h.keeps (P := SameAt id st.1) (fun st' other detail hsame => ?_)
    (fun l other hother value hsame => ?_) (.refl id st.1)
  · refine hsame.trans (sameAt_adding ?_ other detail)
    rw [hsame.task]
    exact hid
  · exact hsame.trans (sameAt_complete l (hspares other hother) value)

end Counts

variable [EquivBEq ι]

/-- `submit` is all or nothing for its task, whatever its reaction does besides, as long as that
`Spares` the task. If it `Fails`, for one of three reasons, all that is told of the task is as
before (`SameAt`), and so is the whole list if the reaction left it alone. If it does not fail, the
reaction has run to its end, once, from where the submission began, and then the task is `Settled`
with the value. -/
theorem submit_all_or_nothing (react : Reaction ι ρ τ σ ε) (id : ι) (value : ρ)
    (st : TodoList ι ρ τ × σ)
    (hspares : ∀ task, Submittable st.1 id task → Spares id (react task id value) st) :
    (∀ e, (submit react id value st).2 = some e →
      Fails react id value st e ∧ SameAt id st.1 (submit react id value st).1.1 ∧
        ((∀ task, Submittable st.1 id task → (react task id value st).1.1 = st.1) →
          (submit react id value st).1.1 = st.1)) ∧
    ((submit react id value st).2 = none →
      ∃ task after, Submittable st.1 id task ∧ react task id value st = (after, none) ∧
        (submit react id value st).1 = (after.1.complete id value, after.2) ∧
        Settled id value task (submit react id value st).1.1) := by
  by_cases hopen : ∃ task, Submittable st.1 id task
  · obtain ⟨task, htask⟩ := hopen
    obtain ⟨ids, hcounts, hids⟩ := hspares task htask
    have hsame : SameAt id st.1 (react task id value st).1.1 :=
      hcounts.sameAt (by rw [htask.find?]; rfl) hids
    rcases hreact : react task id value st with ⟨after, _ | e⟩
    · rw [hreact] at hsame
      rw [submit_of_none htask hreact]
      refine ⟨fun e he => (by cases he), fun _ => ⟨task, after, htask, hreact, rfl, ?_⟩⟩
      exact settled_complete (hsame.task.trans htask.find?) value
    · rw [hreact] at hsame
      rw [submit_of_error htask hreact]
      refine ⟨fun e' he' => ⟨?_, hsame, fun halone => ?_⟩, fun hnone => (by cases hnone)⟩
      · cases he'
        exact .reaction htask (by rw [hreact])
      · have hleft := halone task htask
        rwa [hreact] at hleft
  · obtain ⟨e, he, hfails⟩ := submit_of_not_submittable react value
      fun task htask => hopen ⟨task, htask⟩
    rw [he]
    refine ⟨fun e' he' => ⟨?_, .refl id st.1, fun _ => rfl⟩, fun hnone => (by cases hnone)⟩
    cases he'
    exact hfails

/-! The first of two tasks submits the second and then fails. -/

def twoTasks : TodoList Nat Nat Bool :=
  ⟨"todo", [⟨0, true, false, none⟩, ⟨1, false, false, none⟩], [0, 1], [], true⟩

/-- Nothing is done for a submission. -/
def quiet : Reaction Nat Nat Bool Unit Unit := fun _ _ _ st => (st, none)

/-- Some tasks submit the one after them and then fail. -/
def stumble : Reaction Nat Nat Bool Unit Unit := fun task id value st =>
  if task.detail then ((submit quiet (id + 1) value st).1, some (.reaction ()))
  else (st, none)

theorem spares_stumble {task : Task Nat Nat Bool} (h : Submittable twoTasks 0 task) :
    Spares 0 (stumble task 0 7) (twoTasks, ()) := by
  obtain rfl : ⟨0, true, false, none⟩ = task := Option.some.inj h.find?
  have hcounts : Counts (submit quiet 1 7) (twoTasks, ()) ([] ++ [1]) :=
    .counted ⟨rfl, fun hdone => (by cases hdone)⟩ rfl (.apart rfl)
  refine ⟨[1], ?_, by decide⟩
  exact @Counts.next _ _ _ _ _ _ (submit quiet 1 7) (fun _ st => (st, some (.reaction ()))) _ _ []
    hcounts (.apart rfl)

/-- The task that fails is as before, though the submission of the other counts. -/
theorem submit_all_or_nothing_stumble :
    SameAt 0 twoTasks (submit stumble 0 7 (twoTasks, ())).1.1 ∧
    (submit stumble 0 7 (twoTasks, ())).1.1.recent = [1] ∧
    ∃ task, Settled 1 7 task (submit stumble 1 7 (twoTasks, ())).1.1 := by
  obtain ⟨hfails, -⟩ := submit_all_or_nothing stumble 0 7 (twoTasks, ()) fun _ => spares_stumble
  obtain ⟨-, hcounts⟩ := submit_all_or_nothing stumble 1 7 (twoTasks, ()) fun task htask => by
    obtain rfl : ⟨1, false, false, none⟩ = task := Option.some.inj htask.find?
    exact ⟨[], .apart rfl, by simp⟩
  obtain ⟨task, -, -, -, -, hsettled⟩ := hcounts rfl
  exact ⟨(hfails _ rfl).2.1, rfl, task, hsettled⟩

end CallAtlas.TodoList
