import CallAtlas.Proofs.Graph.Components
import CallAtlas.Proofs.Graph.Trails
import Mathlib.Data.Set.Card

/-! # The routes of a call graph

Every call is an arrow from the position of the caller to that of what is called (`arrowsOf`), so
calls that join the same two nodes are told apart. The routes that a search by nodes tells are the
nodes of different trails (`findRoutes_trails`), as many as asked for or all there are.

* `findRoutes_node_exact`: how many routes are found, and that one is found iff one is there. -/

namespace CallAtlas.Graph

/-- The calls of a graph as arrows between positions. -/
def arrowsOf (edges : List Edge) : Arrows Int :=
  ⟨edges.length, fun k => (edges.get k).source, fun k => (edges.get k).target⟩

theorem next_arrowsOf (edges : List Edge) : (arrowsOf edges).next = successors edges := by
  funext i
  have hget : (List.finRange edges.length).map edges.get = edges := by
    rw [← List.ofFn_eq_map, List.ofFn_get]
  calc (arrowsOf edges).next i
      = ((List.finRange edges.length).map edges.get).filterMap
          fun e => if e.source = i then some e.target else none := by
        rw [List.filterMap_map, Arrows.next, Arrows.leaving, ← List.filterMap_eq_map,
          List.filterMap_filter]
        refine List.filterMap_congr fun k _ => ?_
        change (if decide ((edges.get k).source = i) = true then some (edges.get k).target
          else none) = if (edges.get k).source = i then some (edges.get k).target else none
        simp only [decide_eq_true_eq]
    _ = successors edges i := by rw [hget, successors]

/-- The trails between two positions with at most so many calls. -/
def trailsWithin (edges : List Edge) (start goal : Int) (most : Option Nat) :
    Set (List (Fin (arrowsOf edges).count)) :=
  {way | (arrowsOf edges).Trail start goal way ∧ ∀ m ∈ most, way.length ≤ m}

theorem mem_trails_iff {edges : List Edge} {start goal : Int} {most : Option Nat}
    {way : List (Fin (arrowsOf edges).count)} :
    way ∈ (arrowsOf edges).trails goal (edges.length + 2) [] most start ↔
      way ∈ trailsWithin edges start goal most := by
  rw [Arrows.mem_trails]
  refine ⟨fun h => ⟨h.2.2.1, h.2.1⟩, fun h => ⟨?_, h.2, h.1, fun _ _ => List.not_mem_nil⟩⟩
  have hle : way.length ≤ edges.length := h.1.length_le
  exact Nat.lt_succ_of_le (Nat.le_succ_of_le hle)

theorem routes_eq_trails (edges : List Edge) (start goal : Int) (k : Nat) (most : Option Nat) :
    routes (edges.length + 1) (successors edges) start goal k (most.map Int.ofNat) =
      (((arrowsOf edges).trails goal (edges.length + 2) [] most start).take k).map
        ((arrowsOf edges).stops start) := by
  rw [← next_arrowsOf, Arrows.routes_eq]

/-- The trails are those of a list that tells each of them once. -/
theorem exists_trails (edges : List Edge) (start goal : Int) (k : Nat) (most : Option Nat) :
    ∃ all : List (List (Fin (arrowsOf edges).count)), all.Nodup ∧
      (∀ way, way ∈ all ↔ way ∈ trailsWithin edges start goal most) ∧
      routes (edges.length + 1) (successors edges) start goal k (most.map Int.ofNat) =
        (all.take k).map ((arrowsOf edges).stops start) :=
  ⟨(arrowsOf edges).trails goal (edges.length + 2) [] most start,
    (arrowsOf edges).nodup_trails _ _ _ _ _, fun _ => mem_trails_iff,
    routes_eq_trails edges start goal k most⟩

/-- Whatever is asked for, the routes told by positions are those of trails. -/
theorem CallGraph.exists_ways (g : CallGraph) (start goal k : Int) (most : Option Int) :
    ∃ ways : List (List (Fin (arrowsOf g.edges).count)),
      g.positionRoutes start goal k most = ways.map ((arrowsOf g.edges).stops start) ∧
      ∀ way ∈ ways, (arrowsOf g.edges).Trail start goal way := by
  by_cases hneg : most.any fun m => decide (m < 0)
  · exact ⟨[], by rw [positionRoutes, routes, if_pos hneg]; rfl, fun _ h => (nomatch h)⟩
  · obtain ⟨all, -, hmem, hroutes⟩ :=
      exists_trails g.edges start goal k.toNat (most.map Int.toNat)
    have hmost : (most.map Int.toNat).map Int.ofNat = most := by
      cases most with
      | none => rfl
      | some m =>
        have hm : 0 ≤ m := by simpa using hneg
        simp [Int.toNat_of_nonneg hm]
    refine ⟨all.take k.toNat, ?_, fun way hw => ((hmem way).1 (List.mem_of_mem_take hw)).1⟩
    rw [← hroutes, hmost, positionRoutes, routes, routes, Int.toNat_natCast]

/-- One route is found iff there is a walk that is short enough. -/
theorem routes_ne_nil_iff {edges : List Edge} {start goal : Int} {k : Nat} (hk : 0 < k)
    (most : Option Nat) :
    routes (edges.length + 1) (successors edges) start goal k (most.map Int.ofNat) ≠ [] ↔
      ∃ n, (∀ m ∈ most, n ≤ m) ∧ (arrowsOf edges).Walk n start goal := by
  obtain ⟨all, -, hmem, hroutes⟩ := exists_trails edges start goal k most
  have hne : (all.take k).map ((arrowsOf edges).stops start) ≠ [] ↔
      ∃ way, way ∈ trailsWithin edges start goal most := by
    simp only [← hmem, ne_eq, List.map_eq_nil_iff, List.take_eq_nil_iff, Nat.ne_of_gt hk, false_or]
    exact ⟨List.exists_mem_of_ne_nil all, fun ⟨_, hw⟩ => List.ne_nil_of_mem hw⟩
  rw [hroutes, hne]
  constructor
  · rintro ⟨way, hway, hm⟩
    exact ⟨way.length, hm, hway.walk⟩
  · rintro ⟨n, hn, hwalk⟩
    obtain ⟨way, hway, hle⟩ := hwalk.exists_trail
    exact ⟨way, hway, fun m hm => Nat.le_trans hle (hn m hm)⟩

theorem ncard_trailsWithin {edges : List Edge} {start goal : Int} {most : Option Nat}
    {all : List (List (Fin (arrowsOf edges).count))} (hnodup : all.Nodup)
    (hmem : ∀ way, way ∈ all ↔ way ∈ trailsWithin edges start goal most) :
    (trailsWithin edges start goal most).Finite ∧
      (trailsWithin edges start goal most).ncard = all.length := by
  have hset : trailsWithin edges start goal most = (all.toFinset : Set _) := by
    ext way
    rw [← hmem, List.coe_toFinset, Set.mem_ofPred_eq]
  rw [hset]
  exact ⟨Finset.finite_toSet _, by
    rw [Set.ncard_coe_finset, List.toFinset_card_of_nodup hnodup]⟩

/-! ## Sites -/

theorem itemAt_ok {α : Type} {items : List α} {i : Int} (h : i ∈ positions items.length) :
    ∃ a, itemAt items i = .ok a := by
  have hi := mem_positions.1 h
  have hlt : i.toNat < items.length := by omega
  refine ⟨items[i.toNat], ?_⟩
  rw [itemAt, at?, slot?_of_mem h, Option.bind_some, List.getElem?_eq_getElem hlt]

theorem CallGraph.sitesAt_ok {g : CallGraph} (howners : g.owners.length = g.nodes.length)
    {is : List Int} (h : ∀ i ∈ is, i ∈ positions g.nodes.length) :
    ∃ sites, g.sitesAt is = .ok sites := by
  induction is with
  | nil => exact ⟨[], rfl⟩
  | cons i is ih =>
    have hi := h i (.head _)
    obtain ⟨l, hl⟩ := itemAt_ok hi
    have hi' : i ∈ positions g.owners.length := by rwa [howners]
    obtain ⟨s, hs⟩ := itemAt_ok hi'
    obtain ⟨sites, hsites⟩ := ih fun i hi => h i (.tail _ hi)
    exact ⟨⟨s, l⟩ :: sites, by rw [CallGraph.sitesAt, CallGraph.siteAt, hs, hl, hsites]⟩

/-- A way from a node comes to nodes only. -/
theorem mem_positions_of_stops {n : Nat} {edges : List Edge} (h : InRange n edges) {start : Int}
    (hstart : start ∈ positions n) (way : List (Fin (arrowsOf edges).count)) :
    ∀ i ∈ (arrowsOf edges).stops start way, i ∈ positions n := by
  intro i hi
  rcases List.mem_cons.1 hi with rfl | hi
  · exact hstart
  · obtain ⟨e, -, rfl⟩ := List.mem_map.1 hi
    exact mem_positions.2 (h _ (List.get_mem edges e)).2

/-! ## Routes -/

/-- The routes that a search by nodes tells are the nodes of trails, in the order of a list. -/
theorem findRoutes_trails {g : CallGraph} (hedges : InRange g.nodes.length g.edges)
    (howners : g.owners.length = g.nodes.length) {start goal k : Int} {most : Option Int}
    (hstart : start ∈ positions g.nodes.length)
    {ways : List (List (Fin (arrowsOf g.edges).count))}
    (hways : g.positionRoutes start goal k most = ways.map ((arrowsOf g.edges).stops start)) :
    ∃ told : List (List Site), g.findRoutes start goal k most .node = .ok (told.map .nodes) ∧
      List.Forall₂ (fun way sites => g.sitesAt ((arrowsOf g.edges).stops start way) = .ok sites)
        ways told := by
  have hok : ∀ way ∈ ways, ∃ sites,
      g.sitesAt ((arrowsOf g.edges).stops start way) = .ok sites := fun way _ =>
    CallGraph.sitesAt_ok howners (mem_positions_of_stops hedges hstart way)
  rw [CallGraph.findRoutes, hways]
  clear hways
  induction ways with
  | nil => exact ⟨[], rfl, .nil⟩
  | cons way ways ih =>
    obtain ⟨sites, hs⟩ := hok way (.head _)
    obtain ⟨told, htold, hall⟩ := ih fun way hw => hok way (.tail _ hw)
    refine ⟨sites :: told, ?_, .cons hs hall⟩
    simp only [List.map_cons, eachOk, hs, Except.map] at htold ⊢
    rw [htold]

/-- Let the edges be `InRange` and every node have an owner. The routes that `findRoutes` tells by
nodes are the stops of different trails of `trailsWithin`, as many as are asked for or as there are.
So one is told iff some `Walk` within the bound leads to the goal. -/
theorem findRoutes_node_exact (g : CallGraph) (hedges : InRange g.nodes.length g.edges)
    (howners : g.owners.length = g.nodes.length) (start goal : Int)
    (hstart : start ∈ positions g.nodes.length) (k : Nat) (most : Option Nat) :
    ∃ (ways : List (List (Fin (arrowsOf g.edges).count))) (told : List (List Site)),
      g.findRoutes start goal k (most.map Int.ofNat) .node = .ok (told.map .nodes) ∧
      List.Forall₂ (fun way sites => g.sitesAt ((arrowsOf g.edges).stops start way) = .ok sites)
        ways told ∧
      ways.Nodup ∧ (∀ way ∈ ways, way ∈ trailsWithin g.edges start goal most) ∧
      (trailsWithin g.edges start goal most).Finite ∧
      told.length = min k (trailsWithin g.edges start goal most).ncard ∧
      (0 < k → (told ≠ [] ↔
        ∃ n, (∀ m ∈ most, n ≤ m) ∧ (arrowsOf g.edges).Walk n start goal)) := by
  obtain ⟨all, hnodup, hmem, hroutes⟩ := exists_trails g.edges start goal k most
  obtain ⟨told, htold, hsites⟩ := findRoutes_trails hedges howners hstart hroutes
  obtain ⟨hfinite, hcard⟩ := ncard_trailsWithin hnodup hmem
  have hlength : told.length = min k all.length := by
    rw [← hsites.length_eq, List.length_take]
  refine ⟨all.take k, told, htold, hsites, hnodup.sublist (List.take_sublist _ _),
    fun way hw => (hmem way).1 (List.mem_of_mem_take hw), hfinite, by rw [hcard, hlength],
    fun hk => ?_⟩
  have hne : told ≠ [] ↔ ∃ way, way ∈ trailsWithin g.edges start goal most := by
    have hall : told ≠ [] ↔ all ≠ [] := by
      rw [← List.length_pos_iff, ← List.length_pos_iff, hlength]
      omega
    rw [hall]
    refine ⟨fun h => ?_, fun ⟨way, hw⟩ => List.ne_nil_of_mem ((hmem way).2 hw)⟩
    obtain ⟨way, hw⟩ := List.exists_mem_of_ne_nil all h
    exact ⟨way, (hmem way).1 hw⟩
  rw [hne]
  constructor
  · rintro ⟨way, hway, hm⟩
    exact ⟨way.length, hm, hway.walk⟩
  · rintro ⟨n, hn, hwalk⟩
    obtain ⟨way, hway, hle⟩ := hwalk.exists_trail
    exact ⟨way, hway, fun m hm => Nat.le_trans hle (hn m hm)⟩

/-- Four functions: the first calls the second twice and the third once, both call the last, and the
last calls the first. -/
def diamond : CallGraph where
  nodes := [0, 1, 2, 3].map fun line => ⟨.here, line, 0, line, 0, 0, 0⟩
  owners := [.function "a", .function "b", .function "c", .function "d"]
  edges := [⟨0, 1, .may⟩, ⟨0, 1, .may⟩, ⟨0, 2, .must⟩, ⟨1, 3, .must⟩, ⟨2, 3, .must⟩, ⟨3, 0, .must⟩]
  components := []
  componentEdges := []
  unresolved := []
  stats := none

theorem findRoutes_node_exact_diamond :
    InRange diamond.nodes.length diamond.edges ∧ diamond.owners.length = diamond.nodes.length ∧
      (0 : Int) ∈ positions diamond.nodes.length ∧
      (diamond.findRoutes 0 3 5 (some 2) .node).map List.length = .ok 3 ∧
      (trailsWithin diamond.edges 0 3 (some 2)).ncard = 3 ∧
      ¬ ∃ n ≤ 1, (arrowsOf diamond.edges).Walk n 0 3 := by
  have hedges : InRange diamond.nodes.length diamond.edges := by decide
  have howners : diamond.owners.length = diamond.nodes.length := by decide
  have hstart : (0 : Int) ∈ positions diamond.nodes.length := by decide
  have htold : (diamond.findRoutes 0 3 5 (some 2) .node).map List.length = .ok 3 := by rfl
  refine ⟨hedges, howners, hstart, htold, ?_, ?_⟩
  · obtain ⟨ways, told, hfound, -, -, -, -, hlength, -⟩ :=
      findRoutes_node_exact diamond hedges howners 0 3 hstart 5 (some 2)
    have hthree : told.length = 3 := by
      change diamond.findRoutes 0 3 5 (some 2) .node = .ok (told.map .nodes) at hfound
      rw [hfound] at htold
      simpa [Except.map] using htold
    omega
  · obtain ⟨ways, told, hfound, -, -, -, -, -, hiff⟩ :=
      findRoutes_node_exact diamond hedges howners 0 3 hstart 1 (some 1)
    have hnone : told = [] := by
      have hempty : diamond.findRoutes 0 3 1 (some 1) .node = .ok [] := by rfl
      change diamond.findRoutes 0 3 1 (some 1) .node = .ok (told.map .nodes) at hfound
      rw [hempty, Except.ok.injEq, eq_comm, List.map_eq_nil_iff] at hfound
      exact hfound
    rintro ⟨n, hn, hwalk⟩
    exact (hiff Nat.one_pos).2 ⟨n, by simpa using hn, hwalk⟩ hnone

end CallAtlas.Graph
