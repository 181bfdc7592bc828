import CallAtlas.Proofs.Graph.Segments

/-! # Routes between components

Seen as calls (`links`), the edges between components lead from one component to another iff the
members of the one reach those of the other (`Condensed.reaches_links_iff`): a call stays in its
component or follows an edge, and an edge stands for a call, before and behind which one comes to
every member of the component. Since an edge between components stands only once, different trails
come to different components. None of this depends on the order of the edges between components.

* `findRoutes_component_agree`: a search by components finds a route iff a search by nodes does. -/

namespace CallAtlas.Graph

/-! ## Walks -/

theorem exists_walk_iff {edges : List Edge} {i j : Int} :
    (∃ n, (arrowsOf edges).Walk n i j) ↔ Reaches edges i j := by
  constructor
  · rintro ⟨n, hwalk⟩
    induction hwalk with
    | stay v => exact .refl
    | @step n v goal e hs _ ih => exact .head ⟨edges.get e, List.get_mem edges e, hs, rfl⟩ ih
  · intro h
    induction h using Relation.ReflTransGen.head_induction_on with
    | refl => exact ⟨0, .stay j⟩
    | @head i i' hi _ ih =>
      obtain ⟨n, hwalk⟩ := ih
      obtain ⟨e, he, rfl, rfl⟩ := hi
      obtain ⟨k, rfl⟩ := List.get_of_mem he
      exact ⟨n + 1, .step j k rfl hwalk⟩

/-- Without a bound on their length, a route is found iff the goal is reached. -/
theorem routes_ne_nil_iff_reaches {edges : List Edge} {start goal k : Int} (hk : 1 ≤ k) :
    routes (edges.length + 1) (successors edges) start goal k none ≠ [] ↔
      Reaches edges start goal := by
  obtain ⟨k, rfl⟩ := Int.eq_ofNat_of_zero_le (by omega : 0 ≤ k)
  have hpos : 0 < k := by omega
  have hfound := @routes_ne_nil_iff edges start goal k hpos none
  rw [← exists_walk_iff]
  simpa using hfound

/-! ## Edges between components -/

/-- Pairs of components as calls. -/
def links (pairs : List (Int × Int)) : List Edge := pairs.map fun p => ⟨p.1, p.2, .must⟩

theorem successors_links (pairs : List (Int × Int)) (a : Int) :
    successors (links pairs) a = componentSuccessors pairs a := by
  rw [successors, links, List.filterMap_map]
  rfl

theorem joins_links_iff {pairs : List (Int × Int)} {a b : Int} :
    Joins (links pairs) a b ↔ (a, b) ∈ pairs := by
  constructor
  · rintro ⟨e, he, rfl, rfl⟩
    obtain ⟨p, hp, rfl⟩ := List.mem_map.1 he
    exact hp
  · intro h
    exact ⟨_, List.mem_map.2 ⟨_, h, rfl⟩, rfl, rfl⟩

/-- No two arrows between components join the same two. -/
theorem arrowsOf_links_inj {pairs : List (Int × Int)} (h : pairs.Nodup)
    (e f : Fin (arrowsOf (links pairs)).count)
    (hs : (arrowsOf (links pairs)).source e = (arrowsOf (links pairs)).source f)
    (ht : (arrowsOf (links pairs)).target e = (arrowsOf (links pairs)).target f) : e = f := by
  have hnodup : (links pairs).Nodup := h.map fun p q hpq => by
    simp only [Edge.mk.injEq, and_true] at hpq
    exact Prod.ext hpq.1 hpq.2
  have hkind : ∀ k, ((links pairs).get k).kind = .must := by
    intro k
    obtain ⟨p, -, hp⟩ := List.mem_map.1 (List.get_mem (links pairs) k)
    rw [← hp]
  refine (List.nodup_iff_injective_get.1 hnodup) ?_
  rw [Edge.mk.injEq]
  exact ⟨hs, ht, (hkind e).trans (hkind f).symm⟩

namespace Condensed

variable {n : Nat} {edges : List Edge} {components : List (List Int)} {pairs : List (Int × Int)}

theorem reaches_links_iff (h : Condensed n edges components pairs) (hedges : InRange n edges)
    {a b i j : Int} (hi : Holds components a i) (hj : Holds components b j) :
    Reaches (links pairs) a b ↔ Reaches edges i j := by
  constructor
  · intro hab
    induction hab generalizing j with
    | refl => exact h.reaches hi hj
    | @tail b c _ hbc ih =>
      -- an edge stands for a call, before and behind which one moves inside the components
      obtain ⟨-, e, he, hs, ht⟩ := (h.mem_iff b c).1 (joins_links_iff.1 hbc)
      exact ((ih hs).tail ⟨e, he, rfl, rfl⟩).trans (h.reaches ht hj)
  · intro hij
    induction hij generalizing b with
    | refl => exact h.holds_unique hi hj ▸ .refl
    | @tail j j' _ hjj ih =>
      have hnode : j ∈ positions n := by
        obtain ⟨e, he, rfl, -⟩ := hjj
        exact mem_positions.2 (hedges e he).1
      obtain ⟨c, hc⟩ := h.parts.exists_holds hnode
      obtain rfl | hcb := h.joins hjj hc hj
      · exact ih hc
      · exact (ih hc).tail (joins_links_iff.2 hcb)

end Condensed

/-! ## Routes -/

/-- A route from component to component: it goes from the one of `start` to the one of `goal` along
the edges between components, to smaller and smaller numbers. -/
structure Descends (components : List (List Int)) (pairs : List (Int × Int)) (start goal : Int)
    (ids : List Int) : Prop where
  first : ∃ a, ids.head? = some a ∧ Holds components a start
  last : ∃ b, ids.getLast? = some b ∧ Holds components b goal
  joined : ids.IsChain fun a b => (a, b) ∈ pairs
  falls : ids.Pairwise (· > ·)

theorem Condensed.descends {n : Nat} {edges : List Edge} {components : List (List Int)}
    {pairs : List (Int × Int)} (h : Condensed n edges components pairs) {a b start goal : Int}
    (ha : Holds components a start) (hb : Holds components b goal)
    {way : List (Fin (arrowsOf (links pairs)).count)}
    (hway : (arrowsOf (links pairs)).Trail a b way) :
    Descends components pairs start goal ((arrowsOf (links pairs)).stops a way) := by
  have hjoined : ((arrowsOf (links pairs)).stops a way).IsChain fun a b => (a, b) ∈ pairs := by
    refine hway.isChain.imp ?_
    rintro c d ⟨e, hs, ht⟩
    exact joins_links_iff.1 ⟨_, List.get_mem (links pairs) e, hs, ht⟩
  have hfalls : ((arrowsOf (links pairs)).stops a way).IsChain (· > ·) :=
    hjoined.imp fun c d hcd => h.lt hcd
  exact ⟨⟨a, rfl, ha⟩, ⟨b, hway.ends, hb⟩, hjoined, List.isChain_iff_pairwise.1 hfalls⟩

/-- The same graph with these edges between its components. -/
def CallGraph.withPairs (g : CallGraph) (ordered : List (Int × Int)) : CallGraph :=
  { g with componentEdges := ordered }

/-- Whether the edges between components are as the graph has them or in another order, those that a
search goes by are the same. -/
theorem CallGraph.exists_componentEdgeList {g : CallGraph} {components : List (List Int)}
    {pairs ordered : List (Int × Int)}
    (hpairs : condense components g.edges = .ok pairs)
    (hstored : g.componentEdgeList components = .ok pairs)
    (hordered : ordered = g.componentEdges ∨ ordered.Perm pairs) :
    ∃ taken, (g.withPairs ordered).componentEdgeList components = .ok taken ∧
      taken.Perm pairs := by
  rcases hordered with rfl | hperm
  · exact ⟨pairs, hstored, .refl _⟩
  rw [componentEdgeList]
  split
  · exact ⟨pairs, hpairs, .refl _⟩
  · exact ⟨ordered, rfl, hperm⟩

/-- In every call graph that `build` gives for an index, let at least one route be asked for and
routes be of any length. Then `findRoutes` by components finds one iff it does by nodes. The routes
by components are different from each other, and each of them `Descends` from the component of the
start to that of the goal. In what order the edges between components stand makes no difference to
this. -/
theorem findRoutes_component_agree (ix : Index) (o : BuildOptions) :
    ∃ g components pairs, build ix o = .ok g ∧ g.componentList = .ok components ∧
      condense components g.edges = .ok pairs ∧
      ∀ ordered : List (Int × Int), ordered = g.componentEdges ∨ ordered.Perm pairs →
      ∀ start ∈ positions g.nodes.length, ∀ goal ∈ positions g.nodes.length,
        ∀ k : Int, 1 ≤ k → ∃ (told : List (List Site)) (found : List (List Int)),
          g.findRoutes start goal k none .node = .ok (told.map .nodes) ∧
          (g.withPairs ordered).findRoutes start goal k none .component =
            .ok (found.map .components) ∧
          (found ≠ [] ↔ told ≠ []) ∧ found.Nodup ∧
          ∀ ids ∈ found, Descends components pairs start goal ids := by
  obtain ⟨g, hg, hregular⟩ := build_regular ix o
  obtain ⟨components, pairs, hcomponents, hpairs, hstored, hall⟩ := hregular.condensed
  obtain ⟨site, hsite⟩ := g.exists_site hregular.owners
  refine ⟨g, components, pairs, hg, hcomponents, hpairs, ?_⟩
  intro ordered hordered start hstart goal hgoal k hk
  obtain ⟨taken, htaken, hperm⟩ := CallGraph.exists_componentEdgeList hpairs hstored hordered
  have hcondensed := hall.perm hperm
  obtain ⟨a, ha⟩ := hcondensed.parts.exists_holds hstart
  obtain ⟨b, hb⟩ := hcondensed.parts.exists_holds hgoal
  obtain ⟨k, rfl⟩ := Int.eq_ofNat_of_zero_le (by omega : 0 ≤ k)
  obtain ⟨all, hnodup, hmem, hroutes⟩ := exists_trails (links taken) a b k none
  have hnext : successors (links taken) = componentSuccessors taken :=
    funext (successors_links taken)
  have hlength : (links taken).length = taken.length := List.length_map _
  have htrail : ∀ way ∈ all.take k, (arrowsOf (links taken)).Trail a b way := fun way hw =>
    ((hmem way).1 (List.mem_of_mem_take hw)).1
  have hlist : (g.withPairs ordered).componentList = .ok components := hcomponents
  refine ⟨(g.positionRoutes start goal k none).map (List.map site),
    (all.take k).map ((arrowsOf (links taken)).stops a), ?_, ?_, ?_, ?_, ?_⟩
  · rw [findRoutes_node_eq hsite hregular.edges hstart]
  · rw [CallGraph.findRoutes, CallGraph.componentRoutes, hlist]
    simp only [hcondensed.componentOf?_iff.2 ha, hcondensed.componentOf?_iff.2 hb, htaken]
    rw [← hroutes, hnext, hlength]
    rfl
  · have htold : (g.positionRoutes start goal k none).map (List.map site) ≠ [] ↔
        Reaches g.edges start goal :=
      (not_congr List.map_eq_nil_iff).trans (routes_ne_nil_iff_reaches hk)
    rw [htold, ← hroutes, ← hcondensed.reaches_links_iff hregular.edges ha hb]
    exact routes_ne_nil_iff_reaches hk
  · refine (hnodup.sublist (List.take_sublist k all)).map_on fun way hw way' hw' hstops => ?_
    exact (htrail way hw).way_eq (arrowsOf_links_inj hcondensed.nodup) (htrail way' hw') hstops
  · intro ids hids
    obtain ⟨way, hw, rfl⟩ := List.mem_map.1 hids
    have hdescends := hcondensed.descends ha hb (htrail way hw)
    exact ⟨hdescends.first, hdescends.last, hdescends.joined.imp fun _ _ => hperm.mem_iff.1,
      hdescends.falls⟩

/-- A route by components leads from the first function to the third, and none leads back. -/
theorem findRoutes_component_agree_loopAndLeaf :
    ∃ g components pairs, build loopAndLeaf ⟨true, .forward, [], true⟩ = .ok g ∧
      (0 : Int) ∈ positions g.nodes.length ∧ (2 : Int) ∈ positions g.nodes.length ∧
      (∃ ids rest, g.findRoutes 0 2 3 none .component = .ok (.components ids :: rest) ∧
        Descends components pairs 0 2 ids) ∧
      g.findRoutes 2 0 3 none .component = .ok [] := by
  obtain ⟨g, components, pairs, hg, -, -, hall⟩ :=
    findRoutes_component_agree loopAndLeaf ⟨true, .forward, [], true⟩
  have hsize : (build loopAndLeaf ⟨true, .forward, [], true⟩).map (·.nodes.length) = .ok 3 := by
    decide +kernel
  have hthere : (build loopAndLeaf ⟨true, .forward, [], true⟩).bind
      (fun g => (g.findRoutes 0 2 3 none .node).map List.length) = .ok 1 := by decide +kernel
  have hback : (build loopAndLeaf ⟨true, .forward, [], true⟩).bind
      (fun g => (g.findRoutes 2 0 3 none .node).map List.length) = .ok 0 := by decide +kernel
  rw [hg] at hsize hthere hback
  have hlength : g.nodes.length = 3 := Except.ok.inj hsize
  rw [hlength] at hall
  refine ⟨g, components, pairs, hg, by rw [hlength]; decide, by rw [hlength]; decide, ?_, ?_⟩
  · obtain ⟨told, found, htold, hfound, hagree, -, hdescends⟩ :=
      hall _ (.inl rfl) 0 (by decide) 2 (by decide) 3 (by decide)
    simp only [Except.bind, htold, Except.map, List.length_map, Except.ok.injEq] at hthere
    have htold : told ≠ [] := List.ne_nil_of_length_eq_add_one hthere
    obtain ⟨ids, rest, rfl⟩ := List.exists_cons_of_ne_nil (hagree.2 htold)
    exact ⟨ids, _, hfound, hdescends ids (.head _)⟩
  · obtain ⟨told, found, htold, hfound, hagree, -, -⟩ :=
      hall _ (.inl rfl) 2 (by decide) 0 (by decide) 3 (by decide)
    simp only [Except.bind, htold, Except.map, List.length_map, Except.ok.injEq,
      List.length_eq_zero_iff] at hback
    have hnone : found = [] := by
      by_contra hne
      exact hagree.1 hne hback
    rw [hnone] at hfound
    exact hfound

end CallAtlas.Graph
