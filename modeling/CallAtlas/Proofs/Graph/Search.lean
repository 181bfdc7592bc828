import CallAtlas.Graph.Component
import Mathlib.Data.List.Nodup
import Mathlib.Logic.Relation

/-! # The search for components

`Search.Inv next vertices s`: the state `s` of a search numbers the open vertices in the order in
which they were met, holds each vertex once, and has found only components, each of which leads
nowhere but into itself and the components found before it.

* `visit_after`, `scan_after`: what a visit and a scan do to a state that keeps `Inv`
  (`Search.After`), where every open vertex reaches the vertices that are looked at. The vertices
  left on the stack were all reached and all reach an older open vertex; the number that is handed
  back is that of the oldest open vertex that an edge from them leads to.
* `visit_depth`: a visit that may go as deep as there are vertices not met gives the same for any
  larger depth.
* `components_inv`: the components of a whole graph. -/

namespace CallAtlas.Graph

/-- `b` can be reached from `a` by following `next`. -/
def Leads {α : Type} (next : α → List α) : α → α → Prop :=
  Relation.ReflTransGen fun a b => b ∈ next a

namespace Leads

variable {α : Type} {next : α → List α} {a b c : α}

theorem refl (a : α) : Leads next a a := Relation.ReflTransGen.refl

theorem trans (h : Leads next a b) (h' : Leads next b c) : Leads next a c :=
  Relation.ReflTransGen.trans h h'

theorem edge (h : b ∈ next a) : Leads next a b := Relation.ReflTransGen.single h

end Leads

namespace Search

variable {α κ : Type}

/-- The vertices whose component is open, the newest first. -/
def opened (s : Search α) : List α := s.stack.map Prod.fst

/-- The vertices whose component has been found. -/
def settled (s : Search α) : List α := s.found.flatten

/-- Whether a vertex is open or settled. -/
def Known (s : Search α) (v : α) : Prop := v ∈ s.opened ∨ v ∈ s.settled

/-- Distinct vertices have distinct keys, and edges lead from vertices to vertices. -/
structure Closed (key : α → κ) (next : α → List α) (vertices : List α) : Prop where
  inj : ∀ a ∈ vertices, ∀ b ∈ vertices, key a = key b → a = b
  mem : ∀ a ∈ vertices, ∀ b ∈ next a, b ∈ vertices

/-- The invariant of the search (module doc). -/
structure Inv (next : α → List α) (vertices : List α) (s : Search α) : Prop where
  mem : ∀ v, s.Known v → v ∈ vertices
  nodup : (s.opened ++ s.settled).Nodup
  numbers : (s.stack.map Prod.snd).Pairwise (· > ·)
  fresh : ∀ e ∈ s.stack, e.2 < s.next
  inhabited : ∀ c ∈ s.found, c ≠ []
  strong : ∀ c ∈ s.found, ∀ v ∈ c, ∀ w ∈ c, Leads next v w
  closed : ∀ (i : Nat) c, s.found[i]? = some c → ∀ v ∈ c, ∀ w ∈ next v,
    ∃ (j : Nat) (c' : List α), j ≤ i ∧ s.found[j]? = some c' ∧ w ∈ c'

theorem Inv.start (next : α → List α) (vertices : List α) : (start : Search α).Inv next vertices :=
  ⟨by simp [Known, opened, settled, Search.start], by simp [opened, settled, Search.start],
    by simp [Search.start], by simp [Search.start], by simp [Search.start],
    by simp [Search.start], by simp [Search.start]⟩

/-- What looking at the vertices `ws` does to `s`: it hands back `low`, and puts `added` on the
stack. -/
structure After (next : α → List α) (vertices ws : List α) (s : Search α) (low : Option Nat)
    (s' : Search α) (added : List (α × Nat)) : Prop where
  inv : s'.Inv next vertices
  stack : s'.stack = added ++ s.stack
  found : s.found <+: s'.found
  known : ∀ w ∈ ws, s'.Known w
  done : ∀ e ∈ added, ∀ x ∈ next e.1, s'.Known x
  reached : ∀ e ∈ added, ∃ w ∈ ws, Leads next w e.1
  back : ∀ e ∈ added, ∃ x ∈ s.opened, Leads next e.1 x
  low_mem : ∀ m, low = some m → ∃ w ∈ ws, ∃ u, (u, m) ∈ s.stack ∧ Leads next w u
  low_le : ∀ w ∈ ws, ∀ k, (w, k) ∈ s.stack → ∃ m, low = some m ∧ m ≤ k
  low_le_added : ∀ e ∈ added, ∀ x ∈ next e.1, ∀ k, (x, k) ∈ s.stack → ∃ m, low = some m ∧ m ≤ k
  added_nil : low = none → added = []

/-! ## Open and settled vertices -/

section
variable {next : α → List α} {vertices : List α} {s s' : Search α} {v w : α} {k : Nat}

theorem mem_opened_of_mem (h : (v, k) ∈ s.stack) : v ∈ s.opened := List.mem_map.2 ⟨_, h, rfl⟩

theorem mem_settled : v ∈ s.settled ↔ ∃ c ∈ s.found, v ∈ c := List.mem_flatten

theorem Inv.opened_nodup (h : s.Inv next vertices) : s.opened.Nodup :=
  (List.nodup_append.1 h.nodup).1

/-- A vertex has one number. -/
theorem Inv.number_unique (h : s.Inv next vertices) {j k : Nat} (hj : (v, j) ∈ s.stack)
    (hk : (v, k) ∈ s.stack) : j = k := by
  have := List.inj_on_of_nodup_map h.opened_nodup hj hk rfl
  simpa using this

theorem After.mono {ws : List α} {low : Option Nat} {added : List (α × Nat)}
    (h : After next vertices ws s low s' added) (hv : s.Known v) : s'.Known v := by
  rcases hv with hv | hv
  · refine .inl ?_
    rw [opened, h.stack, List.map_append]
    exact List.mem_append_right _ hv
  · obtain ⟨c, hc, hvc⟩ := mem_settled.1 hv
    exact .inr (mem_settled.2 ⟨c, h.found.subset hc, hvc⟩)

end

/-! ## Keys -/

section
variable [DecidableEq κ] {key : α → κ} {next : α → List α} {vertices : List α} {s : Search α}
  {v : α} (hG : Closed key next vertices) (h : s.Inv next vertices)
include hG h

theorem number?_eq_some_iff (hv : v ∈ vertices) {k : Nat} :
    s.number? key v = some k ↔ (v, k) ∈ s.stack := by
  have hkey : ∀ e ∈ s.stack, (key e.1 = key v ↔ e.1 = v) := fun e he =>
    ⟨hG.inj _ (h.mem _ (.inl (List.mem_map.2 ⟨e, he, rfl⟩))) _ hv, fun he => he ▸ rfl⟩
  rw [number?, Option.map_eq_some_iff]
  constructor
  · rintro ⟨e, he, rfl⟩
    have hm := List.mem_of_find?_eq_some he
    have hev : e.1 = v := (hkey e hm).1 (by simpa using List.find?_some he)
    subst hev
    exact hm
  · intro hk
    obtain ⟨e, he⟩ : ∃ e, s.stack.find? (fun e => decide (key e.1 = key v)) = some e := by
      rw [← Option.isSome_iff_exists, List.find?_isSome]
      exact ⟨_, hk, by simp⟩
    have hm := List.mem_of_find?_eq_some he
    have hev : e.1 = v := (hkey e hm).1 (by simpa using List.find?_some he)
    obtain ⟨u, j⟩ := e
    subst hev
    exact ⟨_, he, h.number_unique hm hk⟩

theorem met_iff (hv : v ∈ vertices) : s.met key v = true ↔ s.Known v := by
  rw [met, Bool.or_eq_true]
  refine or_congr ?_ ?_
  · rw [Option.isSome_iff_exists]
    constructor
    · rintro ⟨k, hk⟩
      exact mem_opened_of_mem ((number?_eq_some_iff hG h hv).1 hk)
    · intro ho
      obtain ⟨⟨u, k⟩, he, rfl⟩ := List.mem_map.1 ho
      exact ⟨k, (number?_eq_some_iff hG h hv).2 he⟩
  · simp only [List.any_eq_true, decide_eq_true_eq, mem_settled]
    refine exists_congr fun c => and_congr_right fun hc => ⟨?_, fun hvc => ⟨v, hvc, rfl⟩⟩
    rintro ⟨w, hw, hkey⟩
    have hwv : w ∈ vertices := h.mem w (.inr (mem_settled.2 ⟨c, hc, hw⟩))
    exact hG.inj w hwv v hv hkey ▸ hw

end

/-! ## Looking at one vertex after the other -/

section
variable {next : α → List α} {vertices : List α} {s s₁ s₂ : Search α}

theorem least_eq_none_iff {a b : Option Nat} : least a b = none ↔ a = none ∧ b = none := by
  cases a <;> cases b <;> simp [least]

theorem least_le_left {a b : Option Nat} {k : Nat} (h : ∃ m, a = some m ∧ m ≤ k) :
    ∃ m, least a b = some m ∧ m ≤ k := by
  obtain ⟨m, rfl, hm⟩ := h
  cases b with
  | none => exact ⟨m, rfl, hm⟩
  | some n => exact ⟨min m n, rfl, by omega⟩

theorem least_le_right {a b : Option Nat} {k : Nat} (h : ∃ m, b = some m ∧ m ≤ k) :
    ∃ m, least a b = some m ∧ m ≤ k := by
  obtain ⟨m, rfl, hm⟩ := h
  cases a with
  | none => exact ⟨m, rfl, hm⟩
  | some n => exact ⟨min n m, rfl, by omega⟩

theorem After.nil (h : s.Inv next vertices) : After next vertices [] s none s [] :=
  ⟨h, rfl, List.prefix_refl _, by simp, by simp, by simp, by simp, by simp, by simp, by simp,
    fun _ => rfl⟩

/-- What is added later has a larger number. -/
theorem After.number_lt {ws : List α} {low : Option Nat} {added : List (α × Nat)}
    (h : After next vertices ws s low s₁ added) {e e' : α × Nat} (he : e ∈ added)
    (he' : e' ∈ s.stack) : e'.2 < e.2 := by
  have hp := h.inv.numbers
  rw [h.stack, List.map_append, List.pairwise_append] at hp
  exact hp.2.2 _ (List.mem_map_of_mem he) _ (List.mem_map_of_mem he')

/-- Looking at one vertex and then at others. -/
theorem After.cons {w : α} {ws : List α} {a b : Option Nat} {added added' : List (α × Nat)}
    (h : After next vertices [w] s a s₁ added) (h' : After next vertices ws s₁ b s₂ added') :
    After next vertices (w :: ws) s (least a b) s₂ (added' ++ added) := by
  have hstack : ∀ e ∈ s.stack, e ∈ s₁.stack := fun e he => by
    rw [h.stack]
    exact List.mem_append_right _ he
  refine ⟨h'.inv, by rw [h'.stack, h.stack, List.append_assoc], h.found.trans h'.found, ?_, ?_, ?_,
    ?_, ?_, ?_, ?_, ?_⟩
  · intro x hx
    rcases List.mem_cons.1 hx with rfl | hx
    · exact h'.mono (h.known x (List.mem_singleton.2 rfl))
    · exact h'.known x hx
  · intro e he x hx
    rcases List.mem_append.1 he with he | he
    · exact h'.done e he x hx
    · exact h'.mono (h.done e he x hx)
  · intro e he
    rcases List.mem_append.1 he with he | he
    · obtain ⟨x, hx, hl⟩ := h'.reached e he
      exact ⟨x, .tail _ hx, hl⟩
    · obtain ⟨x, hx, hl⟩ := h.reached e he
      exact ⟨x, List.mem_singleton.1 hx ▸ .head _, hl⟩
  · intro e he
    rcases List.mem_append.1 he with he | he
    · obtain ⟨x, hx, hl⟩ := h'.back e he
      rw [opened, h.stack, List.map_append, List.mem_append] at hx
      rcases hx with hx | hx
      · obtain ⟨e', he', rfl⟩ := List.mem_map.1 hx
        obtain ⟨y, hy, hl'⟩ := h.back e' he'
        exact ⟨y, hy, hl.trans hl'⟩
      · exact ⟨x, hx, hl⟩
    · exact h.back e he
  · intro m hm
    cases a with
    | none =>
      obtain ⟨x, hx, u, hu, hl⟩ := h'.low_mem m hm
      rw [h.stack, h.added_nil rfl] at hu
      exact ⟨x, .tail _ hx, u, hu, hl⟩
    | some j =>
      obtain ⟨x, hx, u, hu, hl⟩ := h.low_mem j rfl
      have hold : ∃ x ∈ w :: ws, ∃ u, (u, j) ∈ s.stack ∧ Leads next x u :=
        ⟨x, List.mem_singleton.1 hx ▸ .head _, u, hu, hl⟩
      cases b with
      | none => cases hm; exact hold
      | some k =>
        rw [least, Option.some.injEq] at hm
        rcases Nat.le_total j k with hjk | hjk
        · rw [← hm, Nat.min_eq_left hjk]; exact hold
        · obtain ⟨y, hy, z, hz, hl'⟩ := h'.low_mem k rfl
          rw [h.stack, List.mem_append] at hz
          rcases hz with hz | hz
          · -- an added vertex is younger than the oldest one that is reached
            have := h.number_lt hz hu
            simp only at this
            omega
          · rw [← hm, Nat.min_eq_right hjk]
            exact ⟨y, .tail _ hy, z, hz, hl'⟩
  · intro x hx k hk
    rcases List.mem_cons.1 hx with rfl | hx
    · exact least_le_left (h.low_le x (List.mem_singleton.2 rfl) k hk)
    · exact least_le_right (h'.low_le x hx k (hstack _ hk))
  · intro e he x hx k hk
    rcases List.mem_append.1 he with he | he
    · exact least_le_right (h'.low_le_added e he x hx k (hstack _ hk))
    · exact least_le_left (h.low_le_added e he x hx k hk)
  · intro hn
    obtain ⟨ha, hb⟩ := least_eq_none_iff.1 hn
    rw [h.added_nil ha, h'.added_nil hb, List.append_nil]

end

/-! ## Opening and closing a component -/

section
variable {next : α → List α} {vertices : List α} {s : Search α} {v : α}

theorem Inv.push (h : s.Inv next vertices) (hv : v ∈ vertices) (hn : ¬ s.Known v) :
    (s.push v).Inv next vertices := by
  refine ⟨fun w hw => ?_, ?_, ?_, ?_, h.inhabited, h.strong, h.closed⟩
  · rcases hw with hw | hw
    · rcases List.mem_cons.1 hw with rfl | hw
      · exact hv
      · exact h.mem w (.inl hw)
    · exact h.mem w (.inr hw)
  · refine List.nodup_cons.2 ⟨fun hm => hn ?_, h.nodup⟩
    exact List.mem_append.1 hm
  · refine List.pairwise_cons.2 ⟨fun n hm => ?_, h.numbers⟩
    obtain ⟨e, he, rfl⟩ := List.mem_map.1 hm
    exact h.fresh e he
  · intro e he
    rcases List.mem_cons.1 he with rfl | he
    · exact Nat.lt_succ_self _
    · exact Nat.lt_succ_of_lt (h.fresh e he)

/-- The newest open vertices become a component, if they reach each other and nothing else that is
open. -/
theorem Inv.close {top rest : List (α × Nat)} (h : s.Inv next vertices)
    (hs : s.stack = top ++ rest) (hne : top ≠ [])
    (hstrong : ∀ e ∈ top, ∀ e' ∈ top, Leads next e.1 e'.1)
    (hclosed : ∀ e ∈ top, ∀ x ∈ next e.1, x ∈ top.map Prod.fst ∨ x ∈ s.settled) :
    (⟨s.next, rest, s.found ++ [top.map Prod.fst]⟩ : Search α).Inv next vertices := by
  have hopen : s.opened = top.map Prod.fst ++ rest.map Prod.fst := by
    rw [opened, hs, List.map_append]
  have hperm : (s.opened ++ s.settled).Perm
      (rest.map Prod.fst ++ (s.settled ++ top.map Prod.fst)) := by
    rw [hopen, List.append_assoc, ← List.append_assoc (rest.map Prod.fst)]
    exact List.perm_append_comm
  refine ⟨fun w hw => ?_, ?_, ?_, ?_, ?_, ?_, ?_⟩
  · refine h.mem w (List.mem_append.1 (hperm.mem_iff.2 ?_))
    simpa [Known, opened, settled] using hw
  · have := hperm.nodup_iff.1 h.nodup
    simpa [opened, settled] using this
  · have := h.numbers
    rw [hs, List.map_append, List.pairwise_append] at this
    exact this.2.1
  · intro e he
    exact h.fresh e (hs ▸ List.mem_append_right _ he)
  · intro c hc
    rcases List.mem_append.1 hc with hc | hc
    · exact h.inhabited c hc
    · rw [List.mem_singleton.1 hc]
      simpa using hne
  · intro c hc u hu w hw
    rcases List.mem_append.1 hc with hc | hc
    · exact h.strong c hc u hu w hw
    · rw [List.mem_singleton.1 hc] at hu hw
      obtain ⟨e, he, rfl⟩ := List.mem_map.1 hu
      obtain ⟨e', he', rfl⟩ := List.mem_map.1 hw
      exact hstrong e he e' he'
  · intro i c hc u hu w hw
    have hold : ∀ {x}, x ∈ s.settled → ∃ (j : Nat) (c' : List α), j < s.found.length ∧
        (s.found ++ [top.map Prod.fst])[j]? = some c' ∧ x ∈ c' := by
      intro x hx
      obtain ⟨c', hc', hx'⟩ := mem_settled.1 hx
      obtain ⟨j, hj, rfl⟩ := List.mem_iff_getElem.1 hc'
      exact ⟨j, _, hj, by simp [List.getElem?_append_left hj], hx'⟩
    rcases Nat.lt_or_ge i s.found.length with hi | hi
    · rw [List.getElem?_append_left hi] at hc
      obtain ⟨j, c', hji, hj, hw'⟩ := h.closed i c hc u hu w hw
      exact ⟨j, c', hji, by rw [List.getElem?_append_left (by omega), hj], hw'⟩
    · have hi' : i = s.found.length := by
        have := (List.getElem?_eq_some_iff.1 hc).1
        simp only [List.length_append, List.length_singleton] at this
        omega
      subst hi'
      have hc' : c = top.map Prod.fst := by simpa using hc.symm
      subst hc'
      obtain ⟨e, he, rfl⟩ := List.mem_map.1 hu
      rcases hclosed e he w hw with hin | hset
      · exact ⟨_, _, Nat.le_refl _, hc, hin⟩
      · obtain ⟨j, c', hj, hjc, hw'⟩ := hold hset
        exact ⟨j, c', by omega, hjc, hw'⟩

end

section
variable [DecidableEq κ] {key : α → κ} {next : α → List α} {vertices : List α}
  {s s' : Search α} {v : α}

theorem split_append {top rest : List (α × Nat)} {n : Nat} (h : ∀ e ∈ top, key e.1 ≠ key v) :
    split key v (top ++ (v, n) :: rest) = (top.map Prod.fst ++ [v], rest) := by
  induction top with
  | nil => simp [split]
  | cons e top ih =>
    obtain ⟨w, m⟩ := e
    have hw : ¬ key w = key v := h _ (.head _)
    rw [List.cons_append, split, if_neg hw, ih fun e he => h e (.tail _ he)]
    rfl

theorem After.of_known (hG : Closed key next vertices) (h : s.Inv next vertices)
    (hv : v ∈ vertices) (hm : s.Known v) :
    After next vertices [v] s (s.number? key v) s [] := by
  refine ⟨h, rfl, List.prefix_refl _, ?_, by simp, by simp, by simp, ?_, ?_, by simp, fun _ => rfl⟩
  · intro w hw
    rw [List.mem_singleton.1 hw]
    exact hm
  · intro m hm
    exact ⟨v, .head _, v, (number?_eq_some_iff hG h hv).1 hm, .refl v⟩
  · intro w hw k hk
    rw [List.mem_singleton.1 hw] at hk
    exact ⟨k, (number?_eq_some_iff hG h hv).2 hk, Nat.le_refl k⟩

end

/-! ## Visiting one vertex -/

section
variable {next : α → List α} {vertices : List α} {s s' : Search α} {v : α} {low : Option Nat}
  {added : List (α × Nat)}

/-- What a visit puts on the stack with the vertex itself is reached from it and reaches it, as all
open vertices do. -/
theorem After.around (h : After next vertices (next v) (s.push v) low s' added)
    (hpre : ∀ u ∈ s.opened, Leads next u v) :
    ∀ e ∈ added ++ [(v, s.next)], Leads next v e.1 ∧ Leads next e.1 v := by
  intro e he
  rcases List.mem_append.1 he with he | he
  · obtain ⟨w, hw, hl⟩ := h.reached e he
    obtain ⟨x, hx, hl'⟩ := h.back e he
    refine ⟨(Leads.edge hw).trans hl, ?_⟩
    rcases List.mem_cons.1 hx with rfl | hx
    · exact hl'
    · exact hl'.trans (hpre x hx)
  · rw [List.mem_singleton.1 he]
    exact ⟨.refl v, .refl v⟩

theorem After.around_done (h : After next vertices (next v) (s.push v) low s' added) :
    ∀ e ∈ added ++ [(v, s.next)], ∀ x ∈ next e.1, s'.Known x ∧
      ∀ k, (x, k) ∈ s.stack → ∃ m, low = some m ∧ m ≤ k := by
  intro e he x hx
  rcases List.mem_append.1 he with he | he
  · exact ⟨h.done e he x hx, fun k hk => h.low_le_added e he x hx k (.tail _ hk)⟩
  · rw [List.mem_singleton.1 he] at hx
    exact ⟨h.known x hx, fun k hk => h.low_le x hx k (.tail _ hk)⟩

/-- A vertex that reaches an older one stays open. -/
theorem After.stay {m : Nat} (hn : ¬ s.Known v) (hpre : ∀ u ∈ s.opened, Leads next u v)
    (h : After next vertices (next v) (s.push v) (some m) s' added) (hm : m < s.next) :
    After next vertices [v] s (some m) s' (added ++ [(v, s.next)]) := by
  have haround := h.around hpre
  have hdone := h.around_done
  obtain ⟨u, hu, hvu⟩ : ∃ u, (u, m) ∈ s.stack ∧ Leads next v u := by
    obtain ⟨w, hw, u, hu, hl⟩ := h.low_mem m rfl
    rcases List.mem_cons.1 hu with hu | hu
    · simp only [Prod.mk.injEq] at hu
      omega
    · exact ⟨u, hu, (Leads.edge hw).trans hl⟩
  refine ⟨h.inv, by rw [h.stack]; simp [push], h.found, ?_, fun e he x hx => (hdone e he x hx).1,
    fun e he => ⟨v, .head _, (haround e he).1⟩,
    fun e he => ⟨u, mem_opened_of_mem hu, (haround e he).2.trans hvu⟩, ?_, ?_,
    fun e he x hx => (hdone e he x hx).2, by simp⟩
  · intro w hw
    rw [List.mem_singleton.1 hw]
    exact h.mono (.inl (.head _))
  · rintro j hj
    cases hj
    exact ⟨v, .head _, u, hu, hvu⟩
  · intro w hw k hk
    rw [List.mem_singleton.1 hw] at hk
    exact absurd (.inl (mem_opened_of_mem hk)) hn

/-- A vertex that reaches nothing older closes its component. -/
theorem After.settle [DecidableEq κ] {key : α → κ} (hG : Closed key next vertices)
    (hI : s.Inv next vertices) (hpre : ∀ u ∈ s.opened, Leads next u v)
    (h : After next vertices (next v) (s.push v) low s' added)
    (hlow : ∀ m, low = some m → s.next ≤ m) (hn : ¬ s.Known v) :
    After next vertices [v] s none (s'.close key v) [] := by
  have haround := h.around hpre
  have hdone := h.around_done
  have hs : s'.stack = (added ++ [(v, s.next)]) ++ s.stack := by rw [h.stack]; simp [push]
  have hvs : v ∈ s'.opened := by simp [opened, hs]
  have hkey : ∀ e ∈ added, key e.1 ≠ key v := by
    intro e he hk
    have heo : e.1 ∈ s'.opened := by
      rw [opened, hs]
      exact List.mem_map_of_mem (by simp [he])
    have hev := hG.inj _ (h.inv.mem _ (.inl heo)) _ (h.inv.mem _ (.inl hvs)) hk
    have hnd := h.inv.opened_nodup
    rw [opened, h.stack, List.map_append, List.nodup_append] at hnd
    exact hnd.2.2 _ (List.mem_map_of_mem he) v (.head _) hev
  have hclose : s'.close key v =
      ⟨s'.next, s.stack, s'.found ++ [(added ++ [(v, s.next)]).map Prod.fst]⟩ := by
    rw [close, h.stack]
    simp only [push]
    rw [split_append hkey]
    simp
  -- no edge leads from the component to an older open vertex
  have hclosed : ∀ e ∈ added ++ [(v, s.next)], ∀ x ∈ next e.1,
      x ∈ (added ++ [(v, s.next)]).map Prod.fst ∨ x ∈ s'.settled := by
    intro e he x hx
    obtain ⟨hk, hle⟩ := hdone e he x hx
    rcases hk with ho | hset
    · rw [opened, hs, List.map_append, List.mem_append] at ho
      rcases ho with ho | ho
      · exact .inl ho
      · obtain ⟨⟨y, k⟩, hy, rfl⟩ := List.mem_map.1 ho
        obtain ⟨m, hm, hmk⟩ := hle k hy
        have h1 := hlow m hm
        have h2 := hI.fresh _ hy
        simp only at h2
        omega
    · exact .inr hset
  have hinv := h.inv.close hs (by simp)
    (fun e he e' he' => (haround e he).2.trans (haround e' he').1) hclosed
  rw [hclose]
  refine ⟨hinv, rfl, h.found.trans (List.prefix_append _ _), ?_, by simp, by simp, by simp, by simp,
    ?_, by simp, fun _ => rfl⟩
  · intro w hw
    rw [List.mem_singleton.1 hw]
    exact .inr (mem_settled.2 ⟨_, List.mem_append_right _ (.head _), by simp⟩)
  · intro w hw k hk
    rw [List.mem_singleton.1 hw] at hk
    exact absurd (.inl (mem_opened_of_mem hk)) hn

end

/-! ## Depth -/

/-- One item less passes the test. -/
theorem countP_lt {p q : α → Bool} {l : List α} (h : ∀ x ∈ l, p x = true → q x = true) {a : α}
    (ha : a ∈ l) (hp : p a = false) (hq : q a = true) : l.countP p < l.countP q := by
  induction l with
  | nil => cases ha
  | cons x l ih =>
    have hl : ∀ y ∈ l, p y = true → q y = true := fun y hy => h y (.tail _ hy)
    have hx := h x (.head _)
    rw [List.countP_cons, List.countP_cons]
    rcases List.mem_cons.1 ha with rfl | ha
    · have := List.countP_mono_left hl
      rw [hp, hq]
      simp only [Bool.false_eq_true, if_false, if_true]
      omega
    · have := ih hl ha
      split
      · next hpx => rw [if_pos (hx hpx)]; omega
      · omega

section
variable [DecidableEq κ] {key : α → κ} {next : α → List α} {vertices : List α}
  {s s' : Search α} {v w : α} {ws : List α} {depth : Nat}

/-- How many vertices have not been met. -/
def unmet (key : α → κ) (vertices : List α) (s : Search α) : Nat :=
  vertices.countP fun v => !s.met key v

/-- The vertices `ws` can be looked at by visits of a depth. -/
structure Ready (key : α → κ) (next : α → List α) (vertices : List α) (depth : Nat) (ws : List α)
    (s : Search α) : Prop where
  inv : s.Inv next vertices
  mem : ∀ w ∈ ws, w ∈ vertices
  pre : ∀ w ∈ ws, ∀ u ∈ s.opened, Leads next u w
  deep : s.unmet key vertices ≤ depth

/-- The whole graph can be looked at. -/
theorem Ready.start (hd : vertices.length ≤ depth) :
    Ready key next vertices depth vertices (start : Search α) :=
  ⟨.start next vertices, fun _ hw => hw, fun _ _ _ hu => absurd hu List.not_mem_nil,
    Nat.le_trans List.countP_le_length hd⟩

variable (hG : Closed key next vertices)
include hG

theorem unmet_mono (h : s.Inv next vertices) (h' : s'.Inv next vertices)
    (hle : ∀ v, s.Known v → s'.Known v) : s'.unmet key vertices ≤ s.unmet key vertices := by
  refine List.countP_mono_left fun v hv hn => ?_
  rw [Bool.not_eq_true', ← Bool.not_eq_true] at hn ⊢
  exact fun hm => hn ((met_iff hG h' hv).2 (hle v ((met_iff hG h hv).1 hm)))

theorem unmet_push (h : s.Inv next vertices) (hv : v ∈ vertices) (hn : ¬ s.Known v) :
    (s.push v).unmet key vertices < s.unmet key vertices := by
  have h' := h.push hv hn
  refine countP_lt (fun x hx hnx => ?_) hv ?_ ?_
  · rw [Bool.not_eq_true', ← Bool.not_eq_true] at hnx ⊢
    exact fun hm => hnx ((met_iff hG h' hx).2 (((met_iff hG h hx).1 hm).imp_left (.tail _)))
  · rw [Bool.not_eq_false']
    exact (met_iff hG h' hv).2 (.inl (.head _))
  · rw [Bool.not_eq_true', ← Bool.not_eq_true]
    exact fun hm => hn ((met_iff hG h hv).1 hm)

theorem Ready.unmet_pos (h : Ready key next vertices depth [v] s) (hn : ¬ s.Known v) :
    0 < depth := by
  have := unmet_push hG h.inv (h.mem v (.head _)) hn
  have := h.deep
  omega

/-- After a look at one vertex the others can be looked at. -/
theorem Ready.tail {a : Option Nat} {added : List (α × Nat)}
    (h : Ready key next vertices depth (w :: ws) s) (ha : After next vertices [w] s a s' added) :
    Ready key next vertices depth ws s' := by
  refine ⟨ha.inv, fun x hx => h.mem x (.tail _ hx), fun x hx u hu => ?_, ?_⟩
  · rw [opened, ha.stack, List.map_append, List.mem_append] at hu
    rcases hu with hu | hu
    · obtain ⟨e, he, rfl⟩ := List.mem_map.1 hu
      obtain ⟨y, hy, hl⟩ := ha.back e he
      exact hl.trans (h.pre x (.tail _ hx) y hy)
    · exact h.pre x (.tail _ hx) u hu
  · exact Nat.le_trans (unmet_mono hG h.inv ha.inv fun _ => ha.mono) h.deep

/-- The successors of a vertex can be looked at one level further down. -/
theorem Ready.push (h : Ready key next vertices (depth + 1) [v] s) (hn : ¬ s.Known v) :
    Ready key next vertices depth (next v) (s.push v) := by
  have hv := h.mem v (.head _)
  refine ⟨h.inv.push hv hn, hG.mem v hv, fun w hw u hu => ?_, ?_⟩
  · rcases List.mem_cons.1 hu with rfl | hu
    · exact .edge hw
    · exact (h.pre v (.head _) u hu).trans (.edge hw)
  · have := unmet_push hG h.inv hv hn
    have := h.deep
    omega

end

/-! ## Scans and visits -/

section
variable [DecidableEq κ] {key : α → κ} {next : α → List α} {vertices : List α} {depth : Nat}

/-- What a scan does at one vertex. -/
def look (key : α → κ) (visit : α → Search α → Option Nat × Search α) (w : α) (s : Search α) :
    Option Nat × Search α :=
  if s.met key w then (s.number? key w, s) else visit w s

theorem scan_cons (visit : α → Search α → Option Nat × Search α) (w : α) (ws : List α)
    (s : Search α) : scan key visit (w :: ws) s =
      (least (look key visit w s).1 (scan key visit ws (look key visit w s).2).1,
        (scan key visit ws (look key visit w s).2).2) := rfl

theorem visit_succ (depth : Nat) (v : α) (s : Search α) : visit key next (depth + 1) v s =
    match scan key (visit key next depth) (next v) (s.push v) with
    | (some low, s') => if low < s.next then (some low, s') else (none, s'.close key v)
    | (none, s') => (none, s'.close key v) := rfl

/-- `f` does at every vertex not met what a visit should do. -/
def Visits (key : α → κ) (next : α → List α) (vertices : List α) (depth : Nat)
    (f : α → Search α → Option Nat × Search α) : Prop :=
  ∀ v s, Ready key next vertices depth [v] s → ¬ s.Known v →
    ∃ added, After next vertices [v] s (f v s).1 (f v s).2 added

variable (hG : Closed key next vertices)
include hG

theorem look_after {f : α → Search α → Option Nat × Search α}
    (hf : Visits key next vertices depth f) {w : α} {ws : List α} {s : Search α}
    (h : Ready key next vertices depth (w :: ws) s) :
    ∃ added, After next vertices [w] s (look key f w s).1 (look key f w s).2 added := by
  have hw := h.mem w (.head _)
  have hmet := met_iff hG h.inv hw
  rw [look]
  split
  · next hm => exact ⟨[], .of_known hG h.inv hw (hmet.1 hm)⟩
  · next hm =>
    refine hf w s ⟨h.inv, fun x hx => ?_, fun x hx => ?_, h.deep⟩ fun hk => hm (hmet.2 hk)
    · rw [List.mem_singleton.1 hx]; exact hw
    · rw [List.mem_singleton.1 hx]; exact h.pre w (.head _)

theorem scan_after {f : α → Search α → Option Nat × Search α}
    (hf : Visits key next vertices depth f) (ws : List α) (s : Search α)
    (h : Ready key next vertices depth ws s) :
    ∃ added, After next vertices ws s (scan key f ws s).1 (scan key f ws s).2 added := by
  induction ws generalizing s with
  | nil => exact ⟨[], .nil h.inv⟩
  | cons w ws ih =>
    obtain ⟨added, ha⟩ := look_after hG hf h
    obtain ⟨added', ha'⟩ := ih _ (h.tail hG ha)
    exact ⟨added' ++ added, ha.cons ha'⟩

theorem visit_after (depth : Nat) : Visits key next vertices depth (visit key next depth) := by
  induction depth with
  | zero => exact fun v s h hn => absurd (h.unmet_pos hG hn) (Nat.lt_irrefl 0)
  | succ depth ih =>
    intro v s h hn
    obtain ⟨added, ha⟩ := scan_after hG ih _ _ (h.push hG hn)
    have hpre := h.pre v (.head _)
    rw [visit_succ]
    generalize scan key (visit key next depth) (next v) (s.push v) = r at ha
    obtain ⟨low, s'⟩ := r
    cases low with
    | none => exact ⟨[], ha.settle hG h.inv hpre (by simp) hn⟩
    | some m =>
      by_cases hm : m < s.next
      · simp only [hm, if_true]
        exact ⟨_, ha.stay hn hpre hm⟩
      · simp only [hm, if_false]
        refine ⟨[], ha.settle hG h.inv hpre (fun j hj => ?_) hn⟩
        cases hj
        exact Nat.le_of_not_lt hm

/-- Visits that do the same one by one do the same in a scan. -/
theorem scan_congr {f g : α → Search α → Option Nat × Search α}
    (hf : Visits key next vertices depth f)
    (hfg : ∀ v s, Ready key next vertices depth [v] s → ¬ s.Known v → f v s = g v s)
    (ws : List α) (s : Search α) (h : Ready key next vertices depth ws s) :
    scan key f ws s = scan key g ws s := by
  induction ws generalizing s with
  | nil => rfl
  | cons w ws ih =>
    obtain ⟨added, ha⟩ := look_after hG hf h
    have hw := h.mem w (.head _)
    have hlook : look key f w s = look key g w s := by
      rw [look, look]
      split
      · rfl
      · next hm =>
        refine hfg w s ⟨h.inv, fun x hx => ?_, fun x hx => ?_, h.deep⟩
          fun hk => hm ((met_iff hG h.inv hw).2 hk)
        · rw [List.mem_singleton.1 hx]; exact hw
        · rw [List.mem_singleton.1 hx]; exact h.pre w (.head _)
    rw [scan_cons, scan_cons, ← hlook, ih _ (h.tail hG ha)]

/-- A visit that may go as deep as there are vertices not met never comes to its end. -/
theorem visit_depth {depth depth' : Nat} (hd : depth ≤ depth') {v : α} {s : Search α}
    (h : Ready key next vertices depth [v] s) (hn : ¬ s.Known v) :
    visit key next depth v s = visit key next depth' v s := by
  induction depth generalizing depth' v s with
  | zero => exact absurd (h.unmet_pos hG hn) (Nat.lt_irrefl 0)
  | succ depth ih =>
    obtain ⟨d, rfl⟩ : ∃ d, depth' = d + 1 := ⟨depth' - 1, by omega⟩
    have hscan := scan_congr hG (visit_after hG depth)
      (fun w t hw hnw => ih (show depth ≤ d by omega) hw hnw) _ _ (h.push hG hn)
    rw [visit_succ, visit_succ, hscan]

/-- All depths from the number of vertices on find the same components. -/
theorem scan_depth {depth : Nat} (hd : vertices.length ≤ depth) :
    (scan key (visit key next depth) vertices start).2.found =
      components key vertices next := by
  rw [components]
  rcases Nat.le_total depth (vertices.length + 1) with hle | hle
  · rw [scan_congr hG (visit_after hG depth) (fun v s => visit_depth hG hle) _ _ (.start hd)]
  · rw [scan_congr hG (visit_after hG (vertices.length + 1)) (fun v s => visit_depth hG hle) _ _
      (.start (Nat.le_succ _))]

/-- A search of the whole graph leaves nothing open. -/
theorem components_inv : ∃ s : Search α, s.Inv next vertices ∧ s.stack = [] ∧
    s.found = components key vertices next ∧ ∀ v ∈ vertices, v ∈ s.settled := by
  obtain ⟨added, ha⟩ := scan_after hG (visit_after hG _) _ _
    (Ready.start (Nat.le_succ vertices.length))
  have hnil : added = [] := by
    cases added with
    | nil => rfl
    | cons e added =>
      obtain ⟨x, hx, -⟩ := ha.back e (.head _)
      cases hx
  have hstack : (scan key (visit key next (vertices.length + 1)) vertices start).2.stack = [] := by
    rw [ha.stack, hnil]
    rfl
  refine ⟨_, ha.inv, hstack, rfl, fun v hv => ?_⟩
  rcases ha.known v hv with ho | hs
  · rw [opened, hstack] at ho
    cases ho
  · exact hs

end

end Search

end CallAtlas.Graph
