import CallAtlas.Todo.Script
import Mathlib.Data.List.Perm.Basic
import Mathlib.Order.RelClasses

/-! # Looking for a task in a list that was changed by hand

Tasks can be taken out of a list or marked by hand, and their identities stay pending. Whoever looks
for a pending task picks any pending identity, and if its task is gone or submitted, gives the
identity up and looks again (`Seeks`). The picks follow no order that the list knows of, so nothing
here depends on them.

* `anyPending_recovers`: from every list whatsoever, the search comes to an end, finds a task that
  waits iff there is one, and gives up nothing but identities without a task that waits. -/

namespace CallAtlas.TodoList

variable {ι ρ τ : Type} [BEq ι] {l m l' : TodoList ι ρ τ} {id : ι} {t : Task ι ρ τ} {n : Nat}
  {found : Option (Task ι ρ τ)}

/-! ## Picks -/

/-- An identity has no task that waits: it has none, or one that is submitted. -/
def Dead (l : TodoList ι ρ τ) (id : ι) : Prop := ∀ t, l.find? id = some t → t.submitted = true

/-- A pending identity is picked and given up, since no task waits under it. The order in which the
others are pending is left open. -/
def Discards (l l' : TodoList ι ρ τ) : Prop :=
  ∃ id rest, l.pending.Perm (id :: rest) ∧ l.Dead id ∧ l' = { l with pending := rest }

/-- A search, with the number of identities that it gives up, the list that it leaves and what it
finds. It ends when nothing is pending, or when the task of the identity that was picked waits. -/
inductive Seeks : TodoList ι ρ τ → Nat → TodoList ι ρ τ → Option (Task ι ρ τ) → Prop
  | nothing {l : TodoList ι ρ τ} (h : l.pending = []) : Seeks l 0 l none
  | waiting {l : TodoList ι ρ τ} {id : ι} {t : Task ι ρ τ} (h : id ∈ l.pending)
      (ht : l.find? id = some t) (hwaits : t.submitted = false) : Seeks l 0 l (some t)
  | discard {l m l' : TodoList ι ρ τ} {n : Nat} {found : Option (Task ι ρ τ)}
      (h : l.Discards m) (rest : Seeks m n l' found) : Seeks l (n + 1) l' found

/-- Every discarded identity makes one less that is pending, so no search goes on for ever. -/
theorem wellFounded_discards :
    WellFounded fun after before : TodoList ι ρ τ => before.Discards after := by
  refine Subrelation.wf ?_ (measure pendingSize).wf
  rintro after before ⟨id, rest, hperm, -, rfl⟩
  show rest.length < before.pending.length
  rw [hperm.length_eq]
  exact Nat.lt_succ_self _

theorem dead_of_find?_eq_none (h : l.find? id = none) : l.Dead id := by
  intro t ht
  rw [h] at ht
  cases ht

theorem dead_of_submitted (h : l.find? id = some t) (ht : t.submitted = true) : l.Dead id := by
  intro t' ht'
  rw [h] at ht'
  cases ht'
  exact ht

/-- Whichever pending identity is picked, its task is found or it is given up. -/
theorem seeks_or_discards (h : id ∈ l.pending) :
    (∃ t, l.find? id = some t ∧ l.Seeks 0 l (some t)) ∨
      ∃ rest, l.pending.Perm (id :: rest) ∧ l.Discards { l with pending := rest } := by
  have hdiscard (hdead : l.Dead id) :
      ∃ rest, l.pending.Perm (id :: rest) ∧ l.Discards { l with pending := rest } := by
    obtain ⟨before, after, hpending⟩ := List.append_of_mem h
    have hperm : l.pending.Perm (id :: (before ++ after)) := by
      rw [hpending]
      exact List.perm_middle
    exact ⟨_, hperm, id, _, hperm, hdead, rfl⟩
  cases hfind : l.find? id with
  | none => exact .inr (hdiscard (dead_of_find?_eq_none hfind))
  | some t =>
    cases hdone : t.submitted with
    | true => exact .inr (hdiscard (dead_of_submitted hfind hdone))
    | false => exact .inl ⟨t, rfl, .waiting h hfind hdone⟩

/-! ## The first one that waits -/

/-- Going through identities in their order is one of the searches. -/
theorem exists_seeks_firstWaiting (l : TodoList ι ρ τ) (ids : List ι) :
    ∃ n, Seeks { l with pending := ids } n { l with pending := (l.firstWaiting ids).1 }
      (l.firstWaiting ids).2 := by
  induction ids with
  | nil => exact ⟨0, .nothing rfl⟩
  | cons id rest ih =>
    obtain ⟨n, hrest⟩ := ih
    have hdiscard (hdead : l.Dead id) : Seeks { l with pending := id :: rest } (n + 1)
        { l with pending := (l.firstWaiting rest).1 } (l.firstWaiting rest).2 :=
      .discard ⟨id, rest, .refl _, hdead, rfl⟩ hrest
    cases hfind : l.find? id with
    | none =>
      refine ⟨n + 1, ?_⟩
      simp only [firstWaiting, hfind]
      exact hdiscard (dead_of_find?_eq_none hfind)
    | some t =>
      cases hdone : t.submitted with
      | true =>
        refine ⟨n + 1, ?_⟩
        simp only [firstWaiting, hfind, hdone, if_true]
        exact hdiscard (dead_of_submitted hfind hdone)
      | false =>
        refine ⟨0, ?_⟩
        simp only [firstWaiting, hfind, hdone, Bool.false_eq_true, if_false]
        exact .waiting List.mem_cons_self hfind hdone

theorem exists_seeks_anyPending (l : TodoList ι ρ τ) :
    ∃ n, l.Seeks n l.anyPending.1 l.anyPending.2 :=
  exists_seeks_firstWaiting l l.pending

/-! ## What a search leaves -/

/-- What is to be expected of a search that gives up `n` identities. -/
structure Recovered (l : TodoList ι ρ τ) (n : Nat) (l' : TodoList ι ρ τ)
    (found : Option (Task ι ρ τ)) : Prop where
  /-- What is found is the task of an identity that was pending and still is, and it waits. -/
  waits : ∀ t, found = some t →
    ∃ id ∈ l.pending, id ∈ l'.pending ∧ l.find? id = some t ∧ t.submitted = false
  /-- Nothing is found only if no task of a pending identity waits, and then none is pending. -/
  none_iff : found = none ↔ ∀ id ∈ l.pending, l.Dead id
  pending_nil : found = none → l'.pending = []
  /-- Only identities without a task that waits are given up, one in each round. -/
  discarded : ∃ dead, dead.length = n ∧ (∀ id ∈ dead, l.Dead id) ∧
    l.pending.Perm (dead ++ l'.pending)
  /-- Nothing but the pending identities changes. -/
  rest : l' = { l with pending := l'.pending }

theorem Recovered.discard (h : l.Discards m) (hm : m.Recovered n l' found) :
    l.Recovered (n + 1) l' found := by
  obtain ⟨id, rest, hperm, hdead, rfl⟩ := h
  obtain ⟨dead, hlength, hall, hrest⟩ := hm.discarded
  refine ⟨fun t ht => ?_, ?_, hm.pending_nil, ⟨id :: dead, ?_, ?_, ?_⟩, hm.rest⟩
  · obtain ⟨id', hmem, hstill, hfind, hwaits⟩ := hm.waits t ht
    exact ⟨id', hperm.mem_iff.2 (.tail _ hmem), hstill, hfind, hwaits⟩
  · -- the identity that was given up is dead, so only the others count
    refine hm.none_iff.trans ⟨fun hothers id' hid' => ?_, fun hothers id' hid' => ?_⟩
    · rcases List.mem_cons.1 (hperm.mem_iff.1 hid') with rfl | hid'
      · exact hdead
      · exact hothers id' hid'
    · exact hothers id' (hperm.mem_iff.2 (.tail _ hid'))
  · rw [List.length_cons, hlength]
  · exact List.forall_mem_cons.2 ⟨hdead, hall⟩
  · exact hperm.trans (hrest.cons id)

theorem Seeks.recovered (h : l.Seeks n l' found) : l.Recovered n l' found := by
  induction h with
  | nothing hnil =>
    refine ⟨nofun, ?_, fun _ => hnil, ⟨[], rfl, nofun, .refl _⟩, rfl⟩
    simp [hnil]
  | @waiting l id t hmem hfind hwaits =>
    refine ⟨?_, ?_, nofun, ⟨[], rfl, nofun, .refl _⟩, rfl⟩
    · rintro t' ⟨⟩
      exact ⟨id, hmem, hmem, hfind, hwaits⟩
    · constructor
      · nofun
      · intro hdead
        have hdone := hdead id hmem t hfind
        rw [hwaits] at hdone
        cases hdone
  | discard hdiscard _ ih => exact ih.discard hdiscard

/-- Whatever a list is like, and whatever is picked in each round, the search for a pending task
comes to an end: a pick finds its task or is given up (`Discards`), and there are only so many to
give up. Every search (`Seeks`), and so `anyPending`, has `Recovered`: it finds a task that is in
the list, pending and not submitted iff there is one, gives up one identity in each round, which has
no task or a submitted one, and changes nothing else. -/
theorem anyPending_recovers (l : TodoList ι ρ τ) :
    Acc (fun after before : TodoList ι ρ τ => before.Discards after) l ∧
    (∀ id ∈ l.pending, (∃ t, l.find? id = some t ∧ l.Seeks 0 l (some t)) ∨
      ∃ rest, l.pending.Perm (id :: rest) ∧ l.Discards { l with pending := rest }) ∧
    (∃ n, l.Seeks n l.anyPending.1 l.anyPending.2) ∧
    ∀ n l' found, l.Seeks n l' found → l.Recovered n l' found :=
  ⟨wellFounded_discards.apply l, fun _ => seeks_or_discards, exists_seeks_anyPending l,
    fun _ _ _ => Seeks.recovered⟩

/-- An identity without a task and one with a submitted task are given up, and the fourth is not
looked at. -/
example :
    let tasks : List (Task Nat Unit Unit) :=
      [⟨2, (), true, none⟩, ⟨3, (), false, none⟩, ⟨4, (), false, none⟩]
    let l : TodoList Nat Unit Unit := ⟨"", tasks, [1, 2, 3, 4], [], true⟩
    l.anyPending.1.pending = [3, 4] ∧ l.anyPending.2.map Task.id = some 3 := by
  decide

end CallAtlas.TodoList
