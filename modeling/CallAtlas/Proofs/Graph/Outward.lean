import CallAtlas.Graph.Traversal
import CallAtlas.Proofs.Graph.Search
import Mathlib.Data.List.Nodup
import Mathlib.Data.List.Perm.Subperm
import Mathlib.Data.List.Shortlex

/-! # The order of a breadth-first search

A way to a vertex (`Way next starts way v`) is a list of choices: one of the starts, and then at
every vertex one of those onward. Ways are compared by `List.Shortlex`: a shorter one comes first,
and of two of one length the one with the smaller choice where they part. A queue delivers vertices
in the order of their first ways.

* `outward_eq`: a search that comes to its end delivers the starts and what it has delivered leads
  to, each vertex where it is first met; it does come to its end (`outward_of_lt`).
* `exists_way_lt`: what is delivered before a vertex has a way before every way to that vertex.
* `before_iff`: one vertex is delivered before another iff its first way comes before the other's. -/

namespace CallAtlas.Graph

variable {α : Type}

/-! ## Ways -/

/-- A way to a vertex: which of the starts, and which of the vertices onward at every step. -/
inductive Way (next : α → List α) (starts : List α) : List Nat → α → Prop
  | start {k : Nat} {v : α} (h : starts[k]? = some v) : Way next starts [k] v
  | step {way : List Nat} {v : α} (h : Way next starts way v) {k : Nat} {w : α}
      (hk : (next v)[k]? = some w) : Way next starts (way ++ [k]) w

/-- The first of all ways to a vertex. -/
structure FirstWay (next : α → List α) (starts : List α) (way : List Nat) (v : α) : Prop where
  leads : Way next starts way v
  first : ∀ other, Way next starts other v → other = way ∨ List.Shortlex (· < ·) way other

section Shortlex

variable {way way' : List Nat}

theorem shortlex_trans {way'' : List Nat} (h : List.Shortlex (· < ·) way way')
    (h' : List.Shortlex (· < ·) way' way'') : List.Shortlex (· < ·) way way'' := by
  rw [List.shortlex_def] at h h' ⊢
  rcases h with h | ⟨hl, h⟩
  · rcases h' with h' | ⟨hl', -⟩ <;> exact .inl (by omega)
  · rcases h' with h' | ⟨hl', h'⟩
    · exact .inl (by omega)
    · exact .inr ⟨hl.trans hl', lt_trans (α := List Nat) h h'⟩

theorem shortlex_irrefl (way : List Nat) : ¬ List.Shortlex (· < ·) way way := fun h =>
  Std.Asymm.asymm _ _ h h

theorem length_le_of_shortlex (h : List.Shortlex (· < ·) way way') : way.length ≤ way'.length := by
  rw [List.shortlex_def] at h
  omega

/-- Ways that part stay in their order whatever is chosen afterwards. -/
theorem shortlex_snoc (h : List.Shortlex (· < ·) way way') (j k : Nat) :
    List.Shortlex (· < ·) (way ++ [j]) (way' ++ [k]) := by
  rw [List.shortlex_def] at h ⊢
  rw [List.length_append, List.length_append]
  rcases h with h | ⟨hl, h⟩
  · exact .inl (by simpa using h)
  · refine .inr ⟨by simpa using hl, ?_⟩
    induction h with
    | nil => simp at hl
    | cons _ ih => exact .cons (ih (by simpa using hl))
    | rel hlt => exact .rel hlt

end Shortlex

theorem Way.length_pos {next : α → List α} {starts : List α} {way : List Nat} {v : α}
    (h : Way next starts way v) : 0 < way.length := by
  cases h <;> simp

theorem exists_way_of_mem {next : α → List α} {starts : List α} {v : α} (h : v ∈ starts) :
    ∃ way, Way next starts way v := by
  obtain ⟨k, hk⟩ := List.mem_iff_getElem?.1 h
  exact ⟨[k], .start hk⟩

theorem Way.exists_step {next : α → List α} {starts : List α} {way : List Nat} {v w : α}
    (h : Way next starts way v) (hw : w ∈ next v) : ∃ way, Way next starts way w := by
  obtain ⟨k, hk⟩ := List.mem_iff_getElem?.1 hw
  exact ⟨way ++ [k], h.step hk⟩

theorem exists_way_of_leads {next : α → List α} {starts : List α} {s v : α} (hs : s ∈ starts)
    (h : Leads next s v) : ∃ way, Way next starts way v := by
  induction h with
  | refl => exact exists_way_of_mem hs
  | tail _ hw ih => exact ih.elim fun _ hway => hway.exists_step hw

theorem Way.mem_of_closed {next : α → List α} {starts vertices : List α}
    (hclosed : ∀ v ∈ vertices, ∀ w ∈ next v, w ∈ vertices) (hstarts : ∀ v ∈ starts, v ∈ vertices)
    {way : List Nat} {v : α} (h : Way next starts way v) : v ∈ vertices := by
  induction h with
  | start hk => exact hstarts _ (List.mem_of_getElem? hk)
  | step _ hk ih => exact hclosed _ ih _ (List.mem_of_getElem? hk)

theorem exists_firstWay {next : α → List α} {starts : List α} {v : α}
    (h : ∃ way, Way next starts way v) : ∃ way, FirstWay next starts way v := by
  obtain ⟨way, hway, hmin⟩ := (List.Shortlex.wf Nat.lt_wfRel.wf).has_min
    {way | Way next starts way v} h
  refine ⟨way, hway, fun other hother => ?_⟩
  rcases trichotomous_of (List.Shortlex (· < ·)) way other with hlt | rfl | hlt
  · exact .inr hlt
  · exact .inl rfl
  · exact absurd hlt (hmin other hother)

theorem exists_lt_of_mem_take {l : List α} {k : Nat} {v : α} (h : v ∈ l.take k) :
    ∃ j < k, l[j]? = some v := by
  obtain ⟨j, hj⟩ := List.mem_iff_getElem?.1 h
  rw [List.getElem?_take] at hj
  split at hj
  · next hlt => exact ⟨j, hlt, hj⟩
  · cases hj

theorem eq_take_append_drop {l : List α} {k : Nat} {v : α} (h : l[k]? = some v) :
    l = l.take k ++ v :: l.drop (k + 1) := by
  obtain ⟨hk, rfl⟩ := List.getElem?_eq_some_iff.1 h
  rw [List.getElem_cons_drop, List.take_append_drop]

variable [DecidableEq α]

/-! ## Fresh vertices -/

theorem mem_fresh {seen vs : List α} {v : α} : v ∈ fresh seen vs ↔ v ∈ vs ∧ v ∉ seen := by
  induction vs generalizing seen with
  | nil => simp [fresh]
  | cons a vs ih =>
    rw [fresh]
    by_cases ha : a ∈ seen
    · rw [if_pos ha, ih, List.mem_cons]
      refine and_congr_left fun hv => ⟨.inr, fun h => h.resolve_left ?_⟩
      rintro rfl
      exact hv ha
    · rw [if_neg ha, List.mem_cons, ih, List.mem_append, List.mem_singleton, List.mem_cons]
      by_cases hva : v = a
      · simp [hva, ha]
      · simp [hva]

theorem nodup_append_fresh {seen : List α} (h : seen.Nodup) (vs : List α) :
    (seen ++ fresh seen vs).Nodup := by
  induction vs generalizing seen with
  | nil => simpa [fresh] using h
  | cons a vs ih =>
    rw [fresh]
    by_cases ha : a ∈ seen
    · rw [if_pos ha]
      exact ih h
    · rw [if_neg ha, List.append_cons]
      exact ih (List.nodup_append.2 ⟨h, by simp, by
        intro x hx y hy
        rw [List.mem_singleton.1 hy]
        exact fun hxa => ha (hxa ▸ hx)⟩)

theorem fresh_append (seen vs ws : List α) :
    fresh seen (vs ++ ws) = fresh seen vs ++ fresh (seen ++ fresh seen vs) ws := by
  induction vs generalizing seen with
  | nil => simp [fresh]
  | cons a vs ih =>
    rw [List.cons_append, fresh, fresh]
    by_cases ha : a ∈ seen
    · rw [if_pos ha, if_pos ha, ih]
    · rw [if_neg ha, if_neg ha, ih, List.cons_append, List.append_assoc seen [a]]
      rfl

/-- Fresh vertices keep the order in which they are first met. -/
theorem idxOf_fresh_lt_iff {seen vs : List α} {u v : α} (hu : u ∉ seen) (hv : v ∉ seen) :
    (fresh seen vs).idxOf u < (fresh seen vs).idxOf v ↔ vs.idxOf u < vs.idxOf v := by
  induction vs generalizing seen with
  | nil => simp [fresh]
  | cons a vs ih =>
    rw [fresh]
    by_cases ha : a ∈ seen
    · have hua : a ≠ u := fun h => hu (h ▸ ha)
      have hva : a ≠ v := fun h => hv (h ▸ ha)
      rw [if_pos ha, ih hu hv, List.idxOf_cons_ne _ hua, List.idxOf_cons_ne _ hva]
      exact Nat.succ_lt_succ_iff.symm
    · rw [if_neg ha]
      by_cases hua : a = u
      · by_cases hva : a = v
        · simp [← hua, ← hva]
        · simp [← hua, List.idxOf_cons_ne _ hva]
      · by_cases hva : a = v
        · simp [← hva]
        · have hu' : u ∉ seen ++ [a] := by simp [hu, Ne.symm hua]
          have hv' : v ∉ seen ++ [a] := by simp [hv, Ne.symm hva]
          rw [List.idxOf_cons_ne _ hua, List.idxOf_cons_ne _ hva, List.idxOf_cons_ne _ hua,
            List.idxOf_cons_ne _ hva, Nat.succ_lt_succ_iff, Nat.succ_lt_succ_iff, ih hu' hv']

/-- What comes before a vertex among fresh ones stands before every place of it. -/
theorem mem_of_idxOf_fresh_lt {before behind : List α} {u v : α}
    (h : (fresh [] (before ++ v :: behind)).idxOf u < (fresh [] (before ++ v :: behind)).idxOf v) :
    u ∈ before := by
  rw [idxOf_fresh_lt_iff List.not_mem_nil List.not_mem_nil] at h
  by_contra hu
  rw [List.idxOf_append_of_notMem hu] at h
  have hle : (before ++ v :: behind).idxOf v ≤ before.length := by
    by_cases hv : v ∈ before
    · rw [List.idxOf_append_of_mem hv]
      exact List.idxOf_le_length
    · rw [List.idxOf_append_of_notMem hv, List.idxOf_cons_self]
      omega
  omega

/-! ## The queue -/

/-- What a queue has delivered and what it holds are different vertices of a graph. -/
structure Queued (vertices done queue : List α) : Prop where
  nodup : (done ++ queue).Nodup
  mem : ∀ v ∈ done ++ queue, v ∈ vertices

namespace Queued

variable {vertices done queue : List α}

omit [DecidableEq α] in
theorem done_le (h : Queued vertices done queue) : done.length ≤ vertices.length := by
  have := (h.nodup.subperm h.mem).length_le
  rw [List.length_append] at this
  omega

/-- Delivering a vertex puts what is fresh of its onward vertices at the end. -/
theorem step {next : α → List α} (hclosed : ∀ v ∈ vertices, ∀ w ∈ next v, w ∈ vertices) {v : α}
    (h : Queued vertices done (v :: queue)) :
    done ++ v :: queue ++ fresh (done ++ v :: queue) (next v) =
        (done ++ [v]) ++ (queue ++ fresh (done ++ v :: queue) (next v)) ∧
      Queued vertices (done ++ [v]) (queue ++ fresh (done ++ v :: queue) (next v)) := by
  have hv : v ∈ vertices := h.mem v (by simp)
  have hseen : done ++ v :: queue ++ fresh (done ++ v :: queue) (next v) =
      (done ++ [v]) ++ (queue ++ fresh (done ++ v :: queue) (next v)) := by simp
  refine ⟨hseen, hseen ▸ nodup_append_fresh h.nodup (next v), ?_⟩
  rw [← hseen]
  intro w hw
  rcases List.mem_append.1 hw with hw | hw
  · exact h.mem w hw
  · exact hclosed v hv w (mem_fresh.1 hw).1

end Queued

/-- The queue delivers itself and what it leads to, each vertex where it is first met. -/
theorem outward_eq {next : α → List α} {vertices : List α}
    (hclosed : ∀ v ∈ vertices, ∀ w ∈ next v, w ∈ vertices) {fuel : Nat} {done queue : List α}
    (h : Queued vertices done queue) (hfuel : vertices.length < fuel + done.length) :
    done ++ outward next fuel (done ++ queue) queue = done ++ queue ++
      fresh (done ++ queue) ((outward next fuel (done ++ queue) queue).flatMap next) := by
  induction fuel generalizing done queue with
  | zero =>
    -- there are no more vertices than have been delivered
    have := h.done_le
    omega
  | succ fuel ih =>
    cases queue with
    | nil => simp [outward, fresh]
    | cons v queue =>
      obtain ⟨hseen, hstep⟩ := h.step hclosed
      have ih := ih hstep (by simp; omega)
      rw [← hseen] at ih
      rw [outward, List.flatMap_cons, fresh_append, ← List.append_assoc (done ++ v :: queue), ← ih]
      simp

/-- A queue comes to its end: rounds that are left over change nothing. -/
theorem outward_of_lt {next : α → List α} {vertices : List α}
    (hclosed : ∀ v ∈ vertices, ∀ w ∈ next v, w ∈ vertices) {fuel fuel' : Nat}
    {done queue : List α} (h : Queued vertices done queue)
    (hfuel : vertices.length < fuel + done.length)
    (hfuel' : vertices.length < fuel' + done.length) :
    outward next fuel (done ++ queue) queue = outward next fuel' (done ++ queue) queue := by
  induction fuel generalizing fuel' done queue with
  | zero =>
    have := h.done_le
    omega
  | succ fuel ih =>
    cases fuel' with
    | zero =>
      have := h.done_le
      omega
    | succ fuel' =>
      cases queue with
      | nil => rfl
      | cons v queue =>
        obtain ⟨hseen, hstep⟩ := h.step hclosed
        have hrest := @ih fuel' _ _ hstep (by simp; omega) (by simp; omega)
        rw [← hseen] at hrest
        rw [outward, outward, hrest]

/-! ## The order -/

section Order

variable {next : α → List α} {starts order : List α}
  (h : order = fresh [] (starts ++ order.flatMap next))
include h

theorem nodup_order : order.Nodup := by
  have := nodup_append_fresh List.nodup_nil (starts ++ order.flatMap next)
  rwa [List.nil_append, ← h] at this

theorem mem_order_of_way {way : List Nat} {v : α} (hway : Way next starts way v) : v ∈ order := by
  have hmem : ∀ v, v ∈ starts ++ order.flatMap next → v ∈ order := fun v hv => by
    rw [h]
    exact mem_fresh.2 ⟨hv, List.not_mem_nil⟩
  induction hway with
  | start hk => exact hmem _ (List.mem_append_left _ (List.mem_of_getElem? hk))
  | step _ hk ih =>
    exact hmem _ (List.mem_append_right _ (List.mem_flatMap.2 ⟨_, ih, List.mem_of_getElem? hk⟩))

/-- What comes before a vertex has a way before every way to that vertex. -/
theorem exists_way_lt {way : List Nat} {u v : α} (hway : Way next starts way v)
    (hbefore : order.idxOf u < order.idxOf v) :
    ∃ way', Way next starts way' u ∧ List.Shortlex (· < ·) way' way := by
  have hmem : ∀ {u v : α} {before behind : List α}, order.idxOf u < order.idxOf v →
      starts ++ order.flatMap next = before ++ v :: behind → u ∈ before := by
    intro u v before behind hlt heq
    rw [h, heq] at hlt
    exact mem_of_idxOf_fresh_lt hlt
  induction hway generalizing u with
  | @start k v hk =>
    -- among the starts, an earlier one is a way of its own
    have hsplit : starts ++ order.flatMap next =
        starts.take k ++ v :: (starts.drop (k + 1) ++ order.flatMap next) := by
      conv_lhs => rw [eq_take_append_drop hk]
      simp
    obtain ⟨j, hjk, hj⟩ := exists_lt_of_mem_take (hmem hbefore hsplit)
    exact ⟨[j], .start hj, (List.shortlex_singleton_iff _ _).2 hjk⟩
  | @step way p hp k v hk ih =>
    obtain ⟨before, behind, hsplit⟩ := List.append_of_mem (mem_order_of_way h hp)
    have hall : starts ++ order.flatMap next = starts ++ before.flatMap next ++ (next p).take k ++
        v :: ((next p).drop (k + 1) ++ behind.flatMap next) := by
      conv_lhs => rw [hsplit, List.flatMap_append, List.flatMap_cons, eq_take_append_drop hk]
      simp
    rcases List.mem_append.1 (hmem hbefore hall) with hu | hu
    · rcases List.mem_append.1 hu with hu | hu
      · obtain ⟨j, hj⟩ := List.mem_iff_getElem?.1 hu
        refine ⟨[j], .start hj, List.Shortlex.of_length_lt ?_⟩
        have := hp.length_pos
        simp
        omega
      · -- an earlier vertex leads to it, which has a way before the one to `p`
        obtain ⟨q, hq, hu⟩ := List.mem_flatMap.1 hu
        obtain ⟨j, hj⟩ := List.mem_iff_getElem?.1 hu
        have hqp : order.idxOf q < order.idxOf p := by
          have hnodup := nodup_order h
          rw [hsplit] at hnodup ⊢
          have hpb : p ∉ before := fun hpb =>
            (List.nodup_append.1 hnodup).2.2 p hpb p (.head _) rfl
          rw [List.idxOf_append_of_mem hq, List.idxOf_append_of_notMem hpb, List.idxOf_cons_self]
          exact List.idxOf_lt_length_of_mem hq
        obtain ⟨way', hway', hlt⟩ := ih hqp
        exact ⟨way' ++ [j], hway'.step hj, shortlex_snoc hlt j k⟩
    · obtain ⟨j, hjk, hj⟩ := exists_lt_of_mem_take hu
      refine ⟨way ++ [j], hp.step hj, ?_⟩
      exact List.Shortlex.append_left ((List.shortlex_singleton_iff _ _).2 hjk) way

/-- One vertex comes before another iff its first way comes before that of the other. -/
theorem before_iff {way way' : List Nat} {u v : α} (hu : FirstWay next starts way u)
    (hv : FirstWay next starts way' v) :
    order.idxOf u < order.idxOf v ↔ List.Shortlex (· < ·) way way' := by
  have hforward : ∀ {way way' : List Nat} {u v : α}, FirstWay next starts way u →
      FirstWay next starts way' v → order.idxOf u < order.idxOf v →
      List.Shortlex (· < ·) way way' := by
    intro way way' u v hu hv hbefore
    obtain ⟨other, hother, hlt⟩ := exists_way_lt h hv.leads hbefore
    obtain rfl | hle := hu.first other hother
    · exact hlt
    · exact shortlex_trans hle hlt
  refine ⟨hforward hu hv, fun hlt => ?_⟩
  rcases Nat.lt_trichotomy (order.idxOf u) (order.idxOf v) with hidx | hidx | hidx
  · exact hidx
  · obtain rfl := (List.idxOf_inj (mem_order_of_way h hu.leads)).1 hidx
    obtain rfl | hle := hv.first way hu.leads
    · exact absurd hlt (shortlex_irrefl way)
    · exact absurd (shortlex_trans hlt hle) (shortlex_irrefl way)
  · exact absurd (shortlex_trans hlt (hforward hv hu hidx)) (shortlex_irrefl way)

end Order

/-- What a queue delivers has a way. -/
theorem exists_way_of_mem_outward {next : α → List α} {starts : List α} {fuel : Nat}
    {seen queue : List α} (hqueue : ∀ v ∈ queue, ∃ way, Way next starts way v) {v : α}
    (hv : v ∈ outward next fuel seen queue) : ∃ way, Way next starts way v := by
  induction fuel generalizing seen queue with
  | zero => cases hv
  | succ fuel ih =>
    cases queue with
    | nil => cases hv
    | cons p queue =>
      rw [outward] at hv
      rcases List.mem_cons.1 hv with rfl | hv
      · exact hqueue v (.head _)
      · refine ih (fun w hw => ?_) hv
        rcases List.mem_append.1 hw with hw | hw
        · exact hqueue w (.tail _ hw)
        · obtain ⟨way, hway⟩ := hqueue p (.head _)
          exact hway.exists_step (mem_fresh.1 hw).1

end CallAtlas.Graph
