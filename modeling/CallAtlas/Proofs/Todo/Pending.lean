import CallAtlas.Proofs.Todo.Label
import CallAtlas.Todo.Script
import Mathlib.Data.List.Basic
import Mathlib.Data.List.Pairwise

/-! # Pending tasks

A list tells in two ways which tasks wait: by the identities that are pending, and by the tasks that
are not submitted. `Consistent` says that both tell the same. It is kept by everything that can be
done with a list, also by submissions whose reactions add tasks, submit tasks and fail, at any depth
(`Orderly.keeps`).

* `run_pending`: after every run, all that is told about pending tasks is told of the tasks that are
  not submitted. -/

namespace CallAtlas

namespace TodoList

variable {ι ρ τ σ ε : Type}

/-- The tasks that are not submitted, in the order of the list. -/
def waiting (l : TodoList ι ρ τ) : List (Task ι ρ τ) := l.tasks.filter fun t => !t.submitted

theorem mem_waiting {l : TodoList ι ρ τ} {t : Task ι ρ τ} :
    t ∈ l.waiting ↔ t ∈ l.tasks ∧ t.submitted = false := by
  simp [waiting]

variable [BEq ι]

/-- No two tasks have the same identity, and the pending identities are those of the tasks that are
not submitted. -/
structure Consistent (l : TodoList ι ρ τ) : Prop where
  distinct : l.tasks.Pairwise fun s t => (s.id == t.id) = false
  pending : l.pending.Perm (l.waiting.map Task.id)

/-- One step of a walk through pending tasks: the task of an identity, if it still waits. -/
def visit (l : TodoList ι ρ τ) (id : ι) : TodoList ι ρ τ × Option (Task ι ρ τ) :=
  match l.find? id with
  | none => (l, none)
  | some t => if t.submitted then (l.settle id, none) else (l, some t)

/-- A walk through the tasks of some identities. -/
def walk (l : TodoList ι ρ τ) : List ι → TodoList ι ρ τ × List (Task ι ρ τ)
  | [] => (l, [])
  | id :: ids =>
    let (l, t) := l.visit id
    let (l, ts) := l.walk ids
    (l, t.toList ++ ts)

/-! ## Tasks by identity -/

section Identity

variable {l : TodoList ι ρ τ} {id : ι} {t : Task ι ρ τ}

theorem mem_of_find? (h : l.find? id = some t) : t ∈ l.tasks ∧ t.id == id :=
  ⟨List.mem_of_find?_eq_some h, by simpa using List.find?_some h⟩

theorem not_same_of_find? (h : l.find? id = none) (ht : t ∈ l.tasks) : (t.id == id) = false := by
  simpa using List.find?_eq_none.1 h t ht

variable [EquivBEq ι]

namespace Consistent

theorem eq_of_same (h : l.Consistent) {s : Task ι ρ τ} (hs : s ∈ l.tasks) (ht : t ∈ l.tasks)
    (hst : s.id == t.id) : s = t := by
  by_contra hne
  have hsymm : Std.Symm fun s t : Task ι ρ τ => (s.id == t.id) = false :=
    ⟨fun s t hst => BEq.comm.trans hst⟩
  have hapart := h.distinct.forall hs ht hne
  rw [hapart] at hst
  cases hst

/-- A task is found under every identity that is the same as its own. -/
theorem find?_eq (h : l.Consistent) (ht : t ∈ l.tasks) (hid : t.id == id) :
    l.find? id = some t := by
  cases hfind : l.find? id with
  | none =>
    have hapart := not_same_of_find? hfind ht
    rw [hapart] at hid
    cases hid
  | some s =>
    obtain ⟨hs, hsid⟩ := mem_of_find? hfind
    rw [h.eq_of_same hs ht (BEq.trans hsid (BEq.symm hid))]

/-- Whether an identity is pending is told by the tasks that wait. -/
theorem contains_pending (h : l.Consistent) (id : ι) :
    l.pending.contains id = l.waiting.any fun t => t.id == id := by
  rw [List.contains_eq_any_beq, h.pending.any_eq, List.any_map]
  congr 1
  funext t
  exact BEq.comm

theorem contains_eq (h : l.Consistent) (ht : t ∈ l.tasks) (hid : t.id == id) :
    l.pending.contains id = !t.submitted := by
  rw [h.contains_pending, Bool.eq_iff_iff, List.any_eq_true]
  constructor
  · rintro ⟨s, hs, hsid⟩
    obtain ⟨hs, hwaits⟩ := mem_waiting.1 hs
    rw [h.eq_of_same hs ht (BEq.trans hsid (BEq.symm hid))] at hwaits
    simp [hwaits]
  · intro hwaits
    exact ⟨t, mem_waiting.2 ⟨ht, by simpa using hwaits⟩, hid⟩

/-- A pending identity is that of a task that waits. -/
theorem exists_waiting (h : l.Consistent) (hid : id ∈ l.pending) :
    ∃ t ∈ l.waiting, t.id = id ∧ l.find? id = some t := by
  obtain ⟨t, ht, rfl⟩ := List.mem_map.1 (h.pending.mem_iff.1 hid)
  exact ⟨t, ht, rfl, h.find?_eq (mem_waiting.1 ht).1 BEq.rfl⟩

end Consistent

end Identity

/-! ## What keeps a list consistent -/

section Keeping

variable {l : TodoList ι ρ τ} {id : ι}

theorem Consistent.empty (name : Text) (resubmit : Bool) :
    (TodoList.empty name resubmit : TodoList ι ρ τ).Consistent :=
  ⟨.nil, .nil⟩

theorem waiting_complete (l : TodoList ι ρ τ) (id : ι) (value : ρ) :
    (l.complete id value).waiting = l.waiting.filter fun t => !(t.id == id) := by
  simp only [waiting, complete, change, settle]
  induction l.tasks with
  | nil => rfl
  | cons t ts ih =>
    by_cases hid : (t.id == id) = true
    · simp [hid, ih]
    · by_cases hwaits : t.submitted = true <;> simp [hid, hwaits, ih]

/-- A submission settles its task in both accounts at once. -/
theorem Consistent.complete (h : l.Consistent) (id : ι) (value : ρ) :
    (l.complete id value).Consistent := by
  refine ⟨?_, ?_⟩
  · have hid (t : Task ι ρ τ) : (if t.id == id then
        { t with submitted := true, result := some value } else t).id = t.id := by
      split <;> rfl
    exact List.pairwise_map.2 (h.distinct.imp fun hst => by rw [hid, hid]; exact hst)
  · rw [waiting_complete]
    have hfilter := h.pending.filter fun p => !(p == id)
    rw [List.filter_map] at hfilter
    exact hfilter

/-- An identity that no waiting task has can be settled and its tasks can go. -/
theorem Consistent.forget (h : l.Consistent) (hid : ∀ t ∈ l.waiting, (t.id == id) = false) :
    (l.forget id).Consistent ∧ (l.forget id).waiting = l.waiting := by
  have hwaiting : (l.forget id).waiting = l.waiting := by
    simp only [waiting, TodoList.forget, settle, List.filter_filter]
    refine List.filter_congr fun t ht => ?_
    cases hwaits : t.submitted with
    | true => rfl
    | false => simp [hid t (mem_waiting.2 ⟨ht, hwaits⟩)]
  refine ⟨⟨h.distinct.filter _, ?_⟩, hwaiting⟩
  rw [hwaiting]
  have hself : (l.pending.filter fun p => !(p == id)) = l.pending := by
    refine List.filter_eq_self.2 fun p hp => ?_
    obtain ⟨t, ht, rfl⟩ := List.mem_map.1 (h.pending.mem_iff.1 hp)
    simp [hid t ht]
  exact (List.Perm.of_eq hself).trans h.pending

theorem Consistent.foldl_forget {done : List ι} (h : l.Consistent)
    (hdone : ∀ id ∈ done, ∀ t ∈ l.waiting, (t.id == id) = false) :
    (done.foldl TodoList.forget l).Consistent := by
  induction done generalizing l with
  | nil => exact h
  | cons id done ih =>
    obtain ⟨hnext, hwaiting⟩ := h.forget (hdone id (by simp))
    exact ih hnext fun id' hid' => by
      rw [hwaiting]
      exact hdone id' (List.mem_cons_of_mem _ hid')

variable [EquivBEq ι]

theorem Consistent.add (h : l.Consistent) {l' : TodoList ι ρ τ} {detail : τ}
    (hadd : (l.add id detail : Except (TodoError ι ε) _) = .ok l') : l'.Consistent := by
  unfold TodoList.add at hadd
  split at hadd
  · cases hadd
  · next hnew =>
    have hfind : l.find? id = none := by simpa using hnew
    have hpending : l.pending.contains id = false := by
      rw [h.contains_pending]
      exact List.any_eq_false.2 fun t ht => by
        simp [not_same_of_find? hfind (mem_waiting.1 ht).1]
    cases hadd
    rw [if_neg (by simpa using hpending)]
    refine ⟨?_, ?_⟩
    · refine List.pairwise_append.2 ⟨h.distinct, List.pairwise_singleton _ _, fun t ht s hs => ?_⟩
      rw [List.mem_singleton.1 hs]
      exact not_same_of_find? hfind ht
    · simp only [waiting, List.filter_append, List.map_append]
      exact h.pending.append_right _

theorem Consistent.clearSubmitted (h : l.Consistent) : l.clearSubmitted.1.Consistent := by
  refine h.foldl_forget fun id hid t ht => ?_
  obtain ⟨s, hs, rfl⟩ := List.mem_map.1 hid
  obtain ⟨hs, hdone⟩ := List.mem_filter.1 hs
  obtain ⟨ht, hwaits⟩ := mem_waiting.1 ht
  by_contra hsame
  rw [h.eq_of_same ht hs (by simpa using hsame), hdone] at hwaits
  cases hwaits

end Keeping

/-! ## What is told about pending tasks -/

section Telling

variable {l : TodoList ι ρ τ} [EquivBEq ι]

namespace Consistent

theorem takePending_eq (h : l.Consistent) : l.takePending = (l, l.waiting) := by
  have hpending : (l.pending.filter fun p => !l.isSubmitted p) = l.pending := by
    refine List.filter_eq_self.2 fun p hp => ?_
    obtain ⟨t, ht, -, hfind⟩ := h.exists_waiting hp
    simp [isSubmitted, hfind, (mem_waiting.1 ht).2]
  have htasks : (l.tasks.filter fun t => l.pending.contains t.id && !t.submitted) = l.waiting :=
    List.filter_congr fun t ht => by rw [h.contains_eq ht BEq.rfl, Bool.and_self]
  rw [takePending, hpending, htasks]

/-- The first pending identity is that of a task that waits, so none is passed over. -/
theorem anyPending_eq (h : l.Consistent) : l.anyPending = (l, l.pending.head?.bind l.find?) := by
  cases hp : l.pending with
  | nil =>
    simp only [anyPending, hp, firstWaiting, List.head?_nil, Option.bind_none]
    rw [← hp]
  | cons id rest =>
    obtain ⟨t, ht, -, hfind⟩ := h.exists_waiting (hp ▸ List.mem_cons_self)
    simp only [anyPending, hp, firstWaiting, hfind, (mem_waiting.1 ht).2, List.head?_cons,
      Option.bind_some, Bool.false_eq_true, if_false]
    rw [← hp]

theorem pendingIds_eq (h : l.Consistent) : l.pendingIds none 0 = l.waiting.map Task.id := by
  have hids : l.ids.filter l.pending.contains = l.waiting.map Task.id := by
    rw [ids, List.filter_map]
    exact congrArg _ (List.filter_congr fun t ht => h.contains_eq ht BEq.rfl)
  rw [pendingIds, hids]
  exact List.take_length

theorem mem_pendingIds (h : l.Consistent) {id : ι} :
    id ∈ l.pendingIds none 0 ↔ ∃ t ∈ l.tasks, t.submitted = false ∧ t.id = id := by
  simp only [h.pendingIds_eq, List.mem_map, mem_waiting, and_assoc]

omit [EquivBEq ι] in
theorem nodup_pendingIds [LawfulBEq ι] (h : l.Consistent) : (l.pendingIds none 0).Nodup := by
  rw [h.pendingIds_eq]
  refine List.pairwise_map.2 ((h.distinct.filter _).imp fun hst heq => ?_)
  rw [heq, beq_self_eq_true] at hst
  cases hst

theorem isPending_eq (h : l.Consistent) (id : ι) :
    (l.isPending id : Except (TodoError ι ε) Bool) = match l.find? id with
      | none => .error (.missing id)
      | some t => .ok (!t.submitted) := by
  unfold isPending
  cases hfind : l.find? id with
  | none => rfl
  | some t =>
    obtain ⟨ht, hid⟩ := mem_of_find? hfind
    simp only [h.contains_eq ht hid, Bool.and_self]

/-- A step of a walk finds the task of an identity if it waits, and changes nothing. -/
theorem visit_eq (h : l.Consistent) (id : ι) :
    l.visit id = (l, (l.find? id).filter fun t => !t.submitted) := by
  unfold visit
  cases hfind : l.find? id with
  | none => rfl
  | some t =>
    cases hdone : t.submitted with
    | false => simp [Option.filter, hdone]
    | true =>
      obtain ⟨ht, hid⟩ := mem_of_find? hfind
      have hsettle : (l.pending.filter fun p => !(p == id)) = l.pending := by
        refine List.filter_eq_self.2 fun p hp => ?_
        obtain ⟨s, hs, rfl, -⟩ := h.exists_waiting hp
        obtain ⟨hs, hwaits⟩ := mem_waiting.1 hs
        by_contra hsid
        rw [h.eq_of_same hs ht (BEq.trans (by simpa using hsid) (BEq.symm hid)), hdone] at hwaits
        cases hwaits
      simp [settle, hsettle, Option.filter, hdone]

theorem walk_eq (h : l.Consistent) (ids : List ι) :
    l.walk ids = (l, ids.filterMap fun id => (l.find? id).filter fun t => !t.submitted) := by
  induction ids with
  | nil => rfl
  | cons id ids ih =>
    simp only [walk, h.visit_eq, ih, List.filterMap_cons]
    cases (l.find? id).filter fun t => !t.submitted <;> rfl

/-- A walk through the pending identities, in whatever order they come, finds the tasks that
wait. -/
theorem walk_perm (h : l.Consistent) {ids : List ι} (hids : ids.Perm l.pending) :
    (l.walk ids).2.Perm l.waiting := by
  rw [h.walk_eq]
  refine ((hids.trans h.pending).filterMap _).trans (List.Perm.of_eq ?_)
  rw [List.filterMap_map]
  refine (List.filterMap_congr fun t ht => ?_).trans List.filterMap_some
  obtain ⟨ht, hwaits⟩ := mem_waiting.1 ht
  simp [h.find?_eq ht BEq.rfl, Option.filter, hwaits]

end Consistent

end Telling

/-! ## Reactions -/

/-- Something that is done with a list and what is around it, and may fail. A reaction is done for
the task, its identity and the value that is submitted. -/
abbrev Deed (ι ρ τ σ ε : Type) :=
  TodoList ι ρ τ × σ → (TodoList ι ρ τ × σ) × Option (TodoError ι ε)

/-- Adds a task that waits. -/
def adding (id : ι) (detail : τ) : Deed ι ρ τ σ ε := fun st =>
  match st.1.add id detail with
  | .ok l => ((l, st.2), none)
  | .error e => (st, some e)

/-- What reactions can do: change what is around a list, or fail, or neither, by anything they can
see; add a task; submit a task whose reaction can do such things; or several of these one after the
other, each chosen by what came of those before, failures included. -/
inductive Orderly : Deed ι ρ τ σ ε → Prop
  | apart {deed : Deed ι ρ τ σ ε} (h : ∀ st, (deed st).1.1 = st.1) : Orderly deed
  | add (id : ι) (detail : τ) : Orderly (adding id detail)
  | submit {react : Reaction ι ρ τ σ ε} (h : ∀ task id value, Orderly (react task id value))
      (id : ι) (value : ρ) : Orderly (TodoList.submit react id value)
  | next {deed : Deed ι ρ τ σ ε} {go : (TodoList ι ρ τ × σ) × Option (TodoError ι ε) →
      Deed ι ρ τ σ ε} (h : Orderly deed) (hgo : ∀ r, Orderly (go r)) :
      Orderly fun st => go (deed st) (deed st).1

/-- A submission keeps a list consistent if its reaction does: what the reaction leaves is consistent
with the task still waiting, or not, and then the task is settled. -/
theorem Consistent.submit {st : TodoList ι ρ τ × σ} (h : st.1.Consistent)
    {react : Reaction ι ρ τ σ ε} {id : ι} {value : ρ}
    (hreact : ∀ task st, st.1.Consistent → (react task id value st).1.1.Consistent) :
    (TodoList.submit react id value st).1.1.Consistent := by
  unfold TodoList.submit
  split
  · exact h
  · next task _ =>
    split
    · exact h
    · have hdone := hreact task st h
      split
      · next heq => rw [heq] at hdone; exact hdone
      · next heq => rw [heq] at hdone; exact hdone.complete id value

variable [EquivBEq ι]

theorem Consistent.adding {st : TodoList ι ρ τ × σ} (h : st.1.Consistent) (id : ι) (detail : τ) :
    (TodoList.adding id detail st : _ × Option (TodoError ι ε)).1.1.Consistent := by
  unfold TodoList.adding
  split
  · next hadd => exact h.add hadd
  · exact h

/-- What reactions can do keeps a list consistent, however deep submissions are nested and whatever
fails on the way. -/
theorem Orderly.keeps {deed : Deed ι ρ τ σ ε} (hdeed : Orderly deed) {st : TodoList ι ρ τ × σ}
    (h : st.1.Consistent) : (deed st).1.1.Consistent := by
  induction hdeed generalizing st with
  | apart hsame => rw [hsame]; exact h
  | add id detail => exact h.adding id detail
  | submit _ id value ih => exact h.submit fun task _ hst => ih task id value hst
  | next _ _ ih ihgo => exact ihgo _ (ih h)

/-! ## Runs -/

/-- What can be done with a list: tasks are added, submitted, looked for, walked through, all at once
or one by one with other things in between, and taken out. -/
inductive Step (ι ρ τ σ ε : Type) [BEq ι] where
  | add (id : ι) (detail : τ)
  | submit (react : Reaction ι ρ τ σ ε) (orderly : ∀ task id value, Orderly (react task id value))
      (id : ι) (value : ρ)
  | takePending
  | visit (id : ι)
  | anyPending
  | clearSubmitted

/-- A list and what is around it after a step, also if it failed. -/
def Step.apply (st : TodoList ι ρ τ × σ) : Step ι ρ τ σ ε → TodoList ι ρ τ × σ
  | .add id detail => (adding id detail st : _ × Option (TodoError ι ε)).1
  | .submit react _ id value => (TodoList.submit react id value st).1
  | .takePending => (st.1.takePending.1, st.2)
  | .visit id => ((st.1.visit id).1, st.2)
  | .anyPending => (st.1.anyPending.1, st.2)
  | .clearSubmitted => (st.1.clearSubmitted.1, st.2)

/-- A new list and what is around it after some steps. -/
def run (name : Text) (resubmit : Bool) (around : σ) (steps : List (Step ι ρ τ σ ε)) :
    TodoList ι ρ τ × σ :=
  steps.foldl Step.apply (.empty name resubmit, around)

theorem Consistent.apply {st : TodoList ι ρ τ × σ} (h : st.1.Consistent)
    (step : Step ι ρ τ σ ε) : (step.apply st).1.Consistent := by
  cases step with
  | add id detail => exact h.adding id detail
  | submit react orderly id value => exact (Orderly.submit orderly id value).keeps h
  | takePending => simpa only [Step.apply, h.takePending_eq] using h
  | visit id => simpa only [Step.apply, h.visit_eq] using h
  | anyPending => simpa only [Step.apply, h.anyPending_eq] using h
  | clearSubmitted => exact h.clearSubmitted

theorem Consistent.foldl_apply {st : TodoList ι ρ τ × σ} (h : st.1.Consistent)
    (steps : List (Step ι ρ τ σ ε)) : (steps.foldl Step.apply st).1.Consistent := by
  induction steps generalizing st with
  | nil => exact h
  | cons step steps ih => exact ih (h.apply step)

/-- All that a list tells about pending tasks is told of the tasks that are not submitted. -/
structure TellsWaiting (l : TodoList ι ρ τ) : Prop where
  pending : l.pending.Perm (l.waiting.map Task.id)
  distinct : l.pending.Pairwise fun a b => (a == b) = false
  size : l.pendingSize = l.waiting.length
  listed : l.pendingIds none 0 = l.waiting.map Task.id
  taken : l.takePending = (l, l.waiting)
  walked : ∀ ids, ids.Perm l.pending → (l.walk ids).1 = l ∧ (l.walk ids).2.Perm l.waiting
  pending_iff : ∀ (ε : Type) (id : ι), (l.isPending id : Except (TodoError ι ε) Bool) = .ok true ↔
    ∃ t ∈ l.waiting, t.id == id
  submitted_iff : ∀ (ε : Type) (id : ι),
    (l.isPending id : Except (TodoError ι ε) Bool) = .ok false ↔
      ∃ t ∈ l.tasks, t.submitted = true ∧ t.id == id
  any : l.anyPending.1 = l ∧ (l.anyPending.2 = none ↔ l.waiting = []) ∧
    ∀ t ∈ l.anyPending.2, t ∈ l.waiting

namespace Consistent

variable {l : TodoList ι ρ τ}

theorem isPending_iff (h : l.Consistent) {id : ι} {waits : Bool} :
    (l.isPending id : Except (TodoError ι ε) Bool) = .ok waits ↔
      ∃ t ∈ l.tasks, t.submitted = !waits ∧ t.id == id := by
  rw [h.isPending_eq]
  constructor
  · intro heq
    cases hfind : l.find? id with
    | none => rw [hfind] at heq; cases heq
    | some t =>
      rw [hfind] at heq
      obtain ⟨ht, hid⟩ := mem_of_find? hfind
      exact ⟨t, ht, by simpa using congrArg not (Except.ok.inj heq), hid⟩
  · rintro ⟨t, ht, hdone, hid⟩
    rw [h.find?_eq ht hid]
    simp [hdone]

theorem anyPending_spec (h : l.Consistent) : l.anyPending.1 = l ∧
    (l.anyPending.2 = none ↔ l.waiting = []) ∧ ∀ t ∈ l.anyPending.2, t ∈ l.waiting := by
  rw [h.anyPending_eq]
  refine ⟨rfl, ?_⟩
  cases hp : l.pending with
  | nil =>
    have hnone : l.waiting = [] :=
      List.map_eq_nil_iff.1 (List.nil_perm.1 (hp ▸ h.pending))
    simp [hnone]
  | cons id rest =>
    obtain ⟨t, ht, -, hfind⟩ := h.exists_waiting (hp ▸ List.mem_cons_self)
    simp [hfind, ht, List.ne_nil_of_mem ht]

theorem tellsWaiting (h : l.Consistent) : l.TellsWaiting where
  pending := h.pending
  distinct := by
    have hids : (l.waiting.map Task.id).Pairwise fun a b => (a == b) = false :=
      List.pairwise_map.2 (h.distinct.filter _)
    exact h.pending.symm.pairwise hids fun hab => BEq.comm.trans hab
  size := by simpa [pendingSize] using h.pending.length_eq
  listed := h.pendingIds_eq
  taken := h.takePending_eq
  walked := fun ids hids => ⟨by rw [h.walk_eq], h.walk_perm hids⟩
  pending_iff := fun ε id => by simp [h.isPending_iff, mem_waiting, and_assoc]
  submitted_iff := fun ε id => by simp [h.isPending_iff]
  any := h.anyPending_spec

end Consistent

/-- After every `run` the list `TellsWaiting`: `pending` has exactly the identities of the tasks
that are not submitted, without repetition, and `pendingSize`, `pendingIds`, `takePending`, every
`walk`, `isPending` and `anyPending` are all as these tasks say. -/
theorem run_pending (name : Text) (resubmit : Bool) (around : σ) (steps : List (Step ι ρ τ σ ε)) :
    (run name resubmit around steps).1.TellsWaiting := by
  have hstart : ((empty name resubmit, around) : TodoList ι ρ τ × σ).1.Consistent :=
    .empty name resubmit
  exact (hstart.foldl_apply steps).tellsWaiting

end TodoList

/-! ## Errands -/

namespace Todo

open TodoList (Deed Orderly)

/-- The reactions of errands, as a submission starts them. -/
def reactions : TodoList.Reaction Label Json Errand (List (Label × Json)) Failure :=
  fun task id value desk => react (submitWithin desk.1.size) task id value desk

/-- An errand is submitted with these reactions. -/
theorem submit_eq (id : Label) (value : Json) (desk : Desk) :
    submit id value desk = TodoList.submit reactions id value desk := rfl

/-- Notes a submission. -/
def noting (id : Label) (value : Json) : Deed Label Json Errand (List (Label × Json)) Failure :=
  fun desk => ((desk.1, desk.2 ++ [(id, value)]), none)

theorem orderly_noting_next {id : Label} {value : Json}
    {deed : Deed Label Json Errand (List (Label × Json)) Failure} (h : Orderly deed) :
    Orderly fun desk => deed (noting id value desk).1 :=
  @Orderly.next _ _ _ _ _ _ (noting id value) (fun _ => deed) (.apart fun _ => rfl) fun _ => h

theorem orderly_react {again : Label → Json → Desk → Outcome}
    (h : ∀ id value, Orderly (again id value)) (task : Task Label Json Errand) (id : Label)
    (value : Json) : Orderly (react again task id value) := by
  cases haction : task.detail.action with
  | none => exact .apart fun desk => by simp [react, haction]
  | some action =>
    cases action with
    | nothing | fail | misnamed => exact .apart fun desk => by simp [react, haction]
    | failOnNull =>
      refine .apart fun desk => ?_
      cases value <;> simp [react, haction]
    | submit other value' =>
      have heq : react again task id value =
          fun desk => again other value' (noting id value desk).1 := by
        funext desk
        simp only [react, haction]
        rfl
      rw [heq]
      exact orderly_noting_next (h other value')
    | add other =>
      have heq : react again task id value =
          fun desk => TodoList.adding other ⟨.null, .obj [], none⟩ (noting id value desk).1 := by
        funext desk
        simp only [react, haction, TodoList.adding, noting]
        split <;> next hadd => simp only [hadd]
      rw [heq]
      exact orderly_noting_next (.add other _)

theorem orderly_submitWithin (depth : Nat) (id : Label) (value : Json) :
    Orderly (submitWithin depth id value) := by
  induction depth generalizing id value with
  | zero => exact .apart fun _ => rfl
  | succ depth ih => exact .submit (orderly_react ih) id value

theorem orderly_reactions (task : Task Label Json Errand) (id : Label) (value : Json) :
    Orderly (reactions task id value) :=
  @Orderly.next _ _ _ _ _ _ (fun desk => (desk, none))
    (fun r => react (submitWithin r.1.1.size) task id value) (.apart fun _ => rfl)
    fun _ => orderly_react (orderly_submitWithin _) task id value

/-! The first errand submits the second, whose reaction adds a fourth. The third fails. -/

def chores : List (TodoList.Step Label Json Errand (List (Label × Json)) Failure) :=
  [.add (.text "a") ⟨.null, .obj [], some (.submit (.text "b") (.int 2))⟩,
   .add (.text "b") ⟨.null, .obj [], some (.add (.number 4))⟩,
   .add (.text "c") ⟨.null, .obj [], some .fail⟩,
   .submit reactions orderly_reactions (.text "a") (.int 1),
   .submit reactions orderly_reactions (.text "c") (.int 3),
   .clearSubmitted]

/-- Both errands of the chain are submitted and taken out; the one that fails and the one that was
added wait. -/
theorem run_pending_chores :
    (TodoList.run "todo" true [] chores).1.TellsWaiting ∧
    (TodoList.run "todo" true [] chores).1.pendingIds none 0 = [.text "c", .number 4] := by
  refine ⟨TodoList.run_pending _ _ _ _, ?_⟩
  rfl

end Todo

end CallAtlas
