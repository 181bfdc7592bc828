import CallAtlas.Graph.Route
import Mathlib.Data.Fintype.Card
import Mathlib.Data.List.FinRange
import Mathlib.Data.List.Nodup

/-! # The search for routes

`Arrows α` are numbered arrows between points, so that several arrows may join the same two points.
A trail (`Arrows.Trail`) is a way along arrows that comes to no point twice. `Arrows.trails` lists
all trails, where `routesFrom` stops as soon as it has found enough.

* `routes_eq`: a search finds the points of the first trails of that list.
* `mem_trails`, `nodup_trails`: the list holds every trail that is short enough, and holds it once;
  no trail has more arrows than there are (`Trail.length_le`).
* `Walk.exists_trail`: where a way leads, a trail leads that is no longer.
* `Trail.way_eq`: trails that come to different points, where arrows are known by their ends. -/

namespace CallAtlas.Graph

theorem takeRoutes_eq {α ε : Type} (route : Nat → α → List (List α)) (all : ε → List (List α))
    (target : ε → α) (h : ∀ k e, route k (target e) = (all e).take k) (k : Nat) (es : List ε) :
    takeRoutes route k (es.map target) = (es.flatMap all).take k := by
  induction es generalizing k with
  | nil => cases k <;> rfl
  | cons e es ih =>
    cases k with
    | zero => rfl
    | succ k =>
      rw [List.map_cons, takeRoutes, ih, h, List.flatMap_cons, List.take_append,
        List.length_take]
      congr 2
      omega

/-- Arrows between points, each with a number of its own. -/
structure Arrows (α : Type) where
  count : Nat
  source : Fin count → α
  target : Fin count → α

namespace Arrows

variable {α : Type} (A : Arrows α)

/-- The points that a way along arrows comes to. -/
def stops (start : α) (way : List (Fin A.count)) : List α := start :: way.map A.target

/-- A way along arrows that comes to no point twice: each arrow starts where the way has come to. -/
structure Trail (start goal : α) (way : List (Fin A.count)) : Prop where
  joined : way.map A.source = (A.stops start way).dropLast
  ends : (A.stops start way).getLast? = some goal
  simple : (A.stops start way).Nodup

/-- A way of some length, on which points may come again. -/
inductive Walk : Nat → α → α → Prop
  | stay (v : α) : Walk 0 v v
  | step {n : Nat} {v : α} (goal : α) (e : Fin A.count) (source : A.source e = v)
      (rest : Walk n (A.target e) goal) : Walk (n + 1) v goal

/-! ## Trails -/

section
variable {A} {start goal v : α} {e : Fin A.count} {way : List (Fin A.count)}

theorem trail_nil_iff : A.Trail start goal [] ↔ start = goal := by
  refine ⟨fun h => by simpa [stops] using h.ends, ?_⟩
  rintro rfl
  exact ⟨rfl, rfl, by simp [stops]⟩

theorem trail_cons_iff : A.Trail start goal (e :: way) ↔
    A.source e = start ∧ start ∉ A.stops (A.target e) way ∧ A.Trail (A.target e) goal way := by
  have hstops : A.stops start (e :: way) = start :: A.stops (A.target e) way := rfl
  have hne : A.stops (A.target e) way ≠ [] := by simp [stops]
  constructor
  · intro h
    have hjoined := h.joined
    rw [hstops, List.dropLast_cons_of_ne_nil hne, List.map_cons, List.cons.injEq] at hjoined
    have hsimple := h.simple
    rw [hstops, List.nodup_cons] at hsimple
    refine ⟨hjoined.1, hsimple.1, hjoined.2, ?_, hsimple.2⟩
    rw [← h.ends, hstops, List.getLast?_cons_of_ne_nil hne]
  · rintro ⟨hs, hn, h⟩
    refine ⟨?_, ?_, ?_⟩
    · rw [hstops, List.dropLast_cons_of_ne_nil hne, List.map_cons, hs, h.joined]
    · rw [hstops, List.getLast?_cons_of_ne_nil hne, h.ends]
    · exact List.nodup_cons.2 ⟨hn, h.simple⟩

/-- The arrows of a trail start at different points, so no arrow is taken twice. -/
theorem Trail.length_le (h : A.Trail start goal way) : way.length ≤ A.count := by
  have hsources : (way.map A.source).Nodup := by
    rw [h.joined]
    exact h.simple.sublist (List.dropLast_sublist _)
  have hway : way.Nodup := hsources.of_map
  simpa using hway.length_le_card

/-- A trail that passes a point has the rest of its way from there. -/
theorem Trail.exists_from (h : A.Trail start goal way) (hv : v ∈ A.stops start way) :
    ∃ rest, A.Trail v goal rest ∧ rest.length ≤ way.length := by
  induction way generalizing start with
  | nil =>
    have hvs : v = start := by simpa [stops] using hv
    exact ⟨[], hvs ▸ h, Nat.le_refl _⟩
  | cons e way ih =>
    rcases List.mem_cons.1 hv with rfl | hv
    · exact ⟨e :: way, h, Nat.le_refl _⟩
    · obtain ⟨rest, hr, hle⟩ := ih (trail_cons_iff.1 h).2.2 hv
      exact ⟨rest, hr, Nat.le_succ_of_le hle⟩

theorem Walk.exists_trail {n : Nat} (h : A.Walk n start goal) :
    ∃ way, A.Trail start goal way ∧ way.length ≤ n := by
  induction h with
  | stay v => exact ⟨[], trail_nil_iff.2 rfl, Nat.le_refl _⟩
  | @step n v goal e hs _ ih =>
    obtain ⟨way, hway, hle⟩ := ih
    by_cases hv : v ∈ A.stops (A.target e) way
    · -- the trail comes back to the first point, and the circle is left out
      obtain ⟨rest, hr, hle'⟩ := hway.exists_from hv
      exact ⟨rest, hr, by omega⟩
    · exact ⟨e :: way, trail_cons_iff.2 ⟨hs, hv, hway⟩, Nat.succ_le_succ hle⟩

theorem Trail.walk (h : A.Trail start goal way) : A.Walk way.length start goal := by
  induction way generalizing start with
  | nil => exact trail_nil_iff.1 h ▸ .stay start
  | cons e way ih =>
    obtain ⟨hs, -, h⟩ := trail_cons_iff.1 h
    exact .step goal e hs (ih h)

/-- A trail goes from point to point along arrows. -/
theorem Trail.isChain (h : A.Trail start goal way) :
    (A.stops start way).IsChain fun v w => ∃ e, A.source e = v ∧ A.target e = w := by
  induction way generalizing start with
  | nil => exact .singleton start
  | cons e way ih =>
    obtain ⟨hs, -, h⟩ := trail_cons_iff.1 h
    exact List.isChain_cons_cons.2 ⟨⟨e, hs, rfl⟩, ih h⟩

/-- Where no two arrows join the same points, a trail is known by the points it comes to. -/
theorem Trail.way_eq (hA : ∀ e f, A.source e = A.source f → A.target e = A.target f → e = f)
    {way' : List (Fin A.count)} (h : A.Trail start goal way) (h' : A.Trail start goal way')
    (hstops : A.stops start way = A.stops start way') : way = way' := by
  have hsources : way.map A.source = way'.map A.source := by
    rw [h.joined, h'.joined, hstops]
  have htargets : way.map A.target = way'.map A.target := (List.cons.inj hstops).2
  have hpairs : way.map (fun e => (A.source e, A.target e)) =
      way'.map fun e => (A.source e, A.target e) := by
    rw [← List.zip_map', ← List.zip_map', hsources, htargets]
  exact List.map_injective_iff.2 (fun e f hef => hA e f (Prod.mk.inj hef).1 (Prod.mk.inj hef).2)
    hpairs

end

/-! ## All trails -/

variable [DecidableEq α]

/-- The arrows that start at a point, in the order of their numbers. -/
def leaving (v : α) : List (Fin A.count) :=
  (List.finRange A.count).filter fun e => decide (A.source e = v)

/-- Where the arrows that start at a point lead. -/
def next (v : α) : List α := (A.leaving v).map A.target

/-- All trails from `v` to `goal` with less than `fuel` arrows, and no more than there is `room`
for, that come to no point of `seen`. -/
def trails (goal : α) : Nat → List α → Option Nat → α → List (List (Fin A.count))
  | 0, _, _, _ => []
  | fuel + 1, seen, room, v =>
    if v = goal then [[]]
    else if room = some 0 then []
    else ((A.leaving v).filter fun e => decide (A.target e ∉ v :: seen)).flatMap fun e =>
      (trails goal fuel (v :: seen) (room.map (· - 1)) (A.target e)).map (e :: ·)

theorem mem_leaving {A : Arrows α} {v : α} {e : Fin A.count} :
    e ∈ A.leaving v ↔ A.source e = v := by
  simp [leaving]

theorem nodup_leaving (v : α) : (A.leaving v).Nodup := (List.nodup_finRange _).filter _

theorem mem_trails {A : Arrows α} {goal v : α} {fuel : Nat} {seen : List α} {room : Option Nat}
    {way : List (Fin A.count)} : way ∈ A.trails goal fuel seen room v ↔
      way.length < fuel ∧ (∀ m ∈ room, way.length ≤ m) ∧ A.Trail v goal way ∧
        ∀ x ∈ way.map A.target, x ∉ seen := by
  induction fuel generalizing seen room v way with
  | zero => simp [trails]
  | succ fuel ih =>
    rw [trails]
    cases way with
    | nil =>
      rw [trail_nil_iff]
      by_cases hv : v = goal
      · simp [hv]
      · rw [if_neg hv]
        split <;> simp [hv]
    | cons e way =>
      rw [trail_cons_iff]
      have hlast : A.Trail (A.target e) goal way → goal ∈ A.stops (A.target e) way := fun h =>
        List.mem_of_getLast? h.ends
      by_cases hv : v = goal
      · -- no trail goes on from its goal
        rw [if_pos hv]
        simp only [List.mem_singleton, reduceCtorEq, false_iff]
        rintro ⟨-, -, ⟨-, hn, h⟩, -⟩
        exact hn (hv ▸ hlast h)
      · rw [if_neg hv]
        by_cases hroom : room = some 0
        · simp [hroom]
        · have hless : (∀ m ∈ room, (e :: way).length ≤ m) ↔
              ∀ m ∈ room.map (· - 1), way.length ≤ m := by
            cases room with
            | none => simp
            | some m =>
              have : m ≠ 0 := fun h => hroom (h ▸ rfl)
              simp only [Option.mem_def, Option.some.injEq, List.length_cons, Option.map_some,
                forall_eq']
              omega
          rw [if_neg hroom, hless]
          simp only [List.mem_flatMap, List.mem_filter, mem_leaving, decide_eq_true_eq,
            List.mem_map, ih, List.cons.injEq, List.mem_cons, not_or, stops, List.map_cons,
            List.length_cons]
          grind

theorem nodup_trails (goal : α) (fuel : Nat) (seen : List α) (room : Option Nat) (v : α) :
    (A.trails goal fuel seen room v).Nodup := by
  induction fuel generalizing seen room v with
  | zero => simp [trails]
  | succ fuel ih =>
    rw [trails]
    split
    · simp
    · split
      · simp
      · refine List.nodup_flatMap.2 ⟨fun e _ => (ih _ _ _).map (List.cons_injective), ?_⟩
        refine ((A.nodup_leaving v).filter _).imp fun {e f} hne => ?_
        intro way he hf
        obtain ⟨w, -, rfl⟩ := List.mem_map.1 he
        obtain ⟨w', -, hw⟩ := List.mem_map.1 hf
        exact hne (List.cons.inj hw).1.symm

/-! ## The search -/

/-- A search from a point behind `seen` finds the first trails. -/
theorem routesFrom_eq (goal : α) (fuel : Nat) (seen : List α) (room : Option Nat) (k : Nat)
    (v : α) : routesFrom A.next goal fuel seen room k v =
      ((A.trails goal fuel seen room v).take k).map fun way => seen.reverse ++ A.stops v way := by
  induction fuel generalizing seen room k v with
  | zero => simp [routesFrom, trails]
  | succ fuel ih =>
    rw [routesFrom, trails]
    by_cases hk : k = 0
    · simp [hk]
    · rw [if_neg hk]
      by_cases hv : v = goal
      · obtain ⟨j, rfl⟩ := Nat.exists_eq_succ_of_ne_zero hk
        simp [hv, stops]
      · rw [if_neg hv, if_neg hv]
        by_cases hroom : room = some 0
        · simp [hroom]
        · rw [if_neg hroom, if_neg hroom]
          have hfilter : (A.next v).filter (fun w => decide (w ∉ v :: seen)) =
              ((A.leaving v).filter fun e => decide (A.target e ∉ v :: seen)).map A.target := by
            rw [next, List.filter_map]
            rfl
          rw [hfilter, takeRoutes_eq _ (fun e => (A.trails goal fuel (v :: seen)
            (room.map (· - 1)) (A.target e)).map fun way =>
              (v :: seen).reverse ++ A.stops (A.target e) way) A.target
              (fun j e => by rw [ih, List.map_take])]
          rw [List.map_take, List.map_flatMap]
          simp [List.map_map, Function.comp_def, stops]

/-- A search that may go as far as there are arrows finds the first trails. -/
theorem routes_eq (size : Nat) (start goal : α) (k : Nat) (most : Option Nat) :
    routes size A.next start goal k (most.map Int.ofNat) =
      ((A.trails goal (size + 1) [] most start).take k).map (A.stops start) := by
  have hmost : (most.map Int.ofNat).any (fun m => decide (m < 0)) = false := by
    cases most with
    | none => rfl
    | some m => simp [Int.not_lt.2 (Int.natCast_nonneg m)]
  have hback : (most.map Int.ofNat).map Int.toNat = most := by
    cases most <;> simp
  rw [routes, hmost, hback]
  simp only [Bool.false_eq_true, if_false, Int.toNat_natCast]
  rw [routesFrom_eq]
  rfl

end Arrows

end CallAtlas.Graph
