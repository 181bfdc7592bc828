import CallAtlas.Proofs.Graph.Segments
import Mathlib.Data.List.Sort
import Mathlib.Order.Lex

/-! # Routes that are told twice

Calls that join the same two nodes give trails that come to the same nodes, so a search may tell a
route again. It tells trails in the order of their calls (`Arrows.pairwise_trails`): a trail is told
iff fewer trails come before it than are asked for (`mem_take_iff`).

* `findRoutes_node_nodup_iff`: the routes told are different iff of two trails that come to the same
  nodes the later one comes too late to be told. -/

namespace CallAtlas.Graph

/-! ## The first of a list in order -/

section Sorted

variable {α β : Type} [LinearOrder α] {all : List α} {k : Nat}

theorem ncard_before (h : all.Pairwise (· < ·)) {m : Nat} (hm : m < all.length) :
    {x | x ∈ all ∧ x < all[m]}.ncard = m := by
  have hset : {x | x ∈ all ∧ x < all[m]} = ((all.take m).toFinset : Set α) := by
    ext x
    simp only [Set.mem_ofPred_eq, List.coe_toFinset]
    rw [List.pairwise_iff_getElem] at h
    constructor
    · rintro ⟨hx, hlt⟩
      obtain ⟨n, hn, rfl⟩ := List.getElem_of_mem hx
      rcases Nat.lt_or_ge n m with hnm | hmn
      · exact List.mem_take_iff_getElem.2 ⟨n, by omega, rfl⟩
      · rcases hmn.eq_or_lt with rfl | hlt'
        · exact absurd hlt (lt_irrefl _)
        · exact absurd hlt (lt_asymm (h m n hm hn hlt'))
    · intro hx
      obtain ⟨n, hn, rfl⟩ := List.mem_take_iff_getElem.1 hx
      exact ⟨List.getElem_mem _, h n m _ hm (by omega)⟩
  have hnodup : (all.take m).Nodup := (h.imp fun hlt => ne_of_lt hlt).sublist (List.take_sublist _ _)
  rw [hset, Set.ncard_coe_finset, List.toFinset_card_of_nodup hnodup, List.length_take]
  omega

/-- An item of a list in order is among the first ones iff few enough come before it. -/
theorem mem_take_iff (h : all.Pairwise (· < ·)) {x : α} (hx : x ∈ all) :
    x ∈ all.take k ↔ {y | y ∈ all ∧ y < x}.ncard < k := by
  obtain ⟨m, hm, rfl⟩ := List.getElem_of_mem hx
  have hnodup : all.Nodup := h.imp fun hlt => ne_of_lt hlt
  rw [ncard_before h hm, List.mem_take_iff_getElem]
  constructor
  · rintro ⟨n, hn, heq⟩
    obtain rfl := (hnodup.getElem_inj_iff).1 heq
    omega
  · exact fun hmk => ⟨m, by omega, rfl⟩

/-- The images of the first items are different iff no two items with one image are both among
them. -/
theorem nodup_map_take_iff (h : all.Pairwise (· < ·)) {f : α → β} :
    ((all.take k).map f).Nodup ↔
      ∀ x ∈ all, ∀ y ∈ all, f x = f y → x < y → k ≤ {z | z ∈ all ∧ z < y}.ncard := by
  have hnodup : (all.take k).Nodup := (h.imp fun hlt => ne_of_lt hlt).sublist (List.take_sublist _ _)
  have hmem := fun x hx => mem_take_iff (k := k) h (x := x) hx
  rw [List.nodup_map_iff_inj_on hnodup]
  constructor
  · intro hinj x hx y hy hxy hlt
    by_contra hk
    have hyk : y ∈ all.take k := (hmem y hy).2 (by omega)
    -- what comes before `x` comes before `y`, so `x` is among the first too
    have hle : {z | z ∈ all ∧ z < x}.ncard ≤ {z | z ∈ all ∧ z < y}.ncard :=
      Set.ncard_le_ncard (fun z hz => ⟨hz.1, hz.2.trans hlt⟩)
        ((List.finite_toSet all).subset fun z hz => hz.1)
    have hxk : x ∈ all.take k := (hmem x hx).2 (by omega)
    exact absurd (hinj x hxk y hyk hxy) (ne_of_lt hlt)
  · intro hlate x hx y hy hxy
    have hxa := List.mem_of_mem_take hx
    have hya := List.mem_of_mem_take hy
    have hxk := (hmem x hxa).1 hx
    have hyk := (hmem y hya).1 hy
    rcases lt_trichotomy x y with hlt | heq | hlt
    · have := hlate x hxa y hya hxy hlt
      omega
    · exact heq
    · have := hlate y hya x hxa hxy.symm hlt
      omega

end Sorted

/-- If the images of the first items are different, they are as many as there are items or
images. -/
theorem length_map_take {α β : Type} {all : List α} {k : Nat} {f : α → β}
    (h : ((all.take k).map f).Nodup) :
    ((all.take k).map f).length = min k (f '' {x | x ∈ all}).ncard := by
  classical
  have hfinite : {x | x ∈ all}.Finite := List.finite_toSet all
  have hle : (f '' {x | x ∈ all}).ncard ≤ all.length := by
    refine (Set.ncard_image_le hfinite).trans ?_
    rw [← List.coe_toFinset, Set.ncard_coe_finset]
    exact List.toFinset_card_le all
  have hge : min k all.length ≤ (f '' {x | x ∈ all}).ncard := by
    have hsub : (((all.take k).map f).toFinset : Set β) ⊆ f '' {x | x ∈ all} := by
      intro y hy
      obtain ⟨x, hx, rfl⟩ := List.mem_map.1 (List.mem_toFinset.1 hy)
      exact ⟨x, List.mem_of_mem_take hx, rfl⟩
    have hcard := Set.ncard_le_ncard hsub (hfinite.image f)
    rwa [Set.ncard_coe_finset, List.toFinset_card_of_nodup h, List.length_map,
      List.length_take] at hcard
  rw [List.length_map, List.length_take]
  omega

/-! ## Trails in the order of their calls -/

theorem Arrows.pairwise_trails {α : Type} [DecidableEq α] (A : Arrows α) (goal : α) (fuel : Nat)
    (seen : List α) (room : Option Nat) (v : α) :
    (A.trails goal fuel seen room v).Pairwise (· < ·) := by
  induction fuel generalizing seen room v with
  | zero => exact .nil
  | succ fuel ih =>
    rw [trails]
    split
    · exact List.pairwise_singleton _ _
    · split
      · exact .nil
      · refine List.pairwise_flatMap.2 ⟨fun e _ => ?_, ?_⟩
        · exact List.pairwise_map.2 ((ih _ _ _).imp fun h => List.Lex.cons h)
        · have hleaving : (A.leaving v).Pairwise (· < ·) :=
            (List.pairwise_lt_finRange A.count).filter _
          refine (hleaving.filter _).imp fun {e f} hlt way he way' hf => ?_
          obtain ⟨w, -, rfl⟩ := List.mem_map.1 he
          obtain ⟨w', -, rfl⟩ := List.mem_map.1 hf
          exact List.Lex.rel hlt

/-- A search for routes tells the first trails in the order of their calls. -/
theorem CallGraph.exists_sorted_trails (g : CallGraph) (start goal k : Int) (most : Option Nat) :
    ∃ all : List (List (Fin (arrowsOf g.edges).count)), all.Pairwise (· < ·) ∧
      (∀ way, way ∈ all ↔ way ∈ trailsWithin g.edges start goal most) ∧
      g.positionRoutes start goal k (most.map Int.ofNat) =
        (all.take k.toNat).map ((arrowsOf g.edges).stops start) := by
  refine ⟨_, (arrowsOf g.edges).pairwise_trails goal _ [] most start, fun _ => mem_trails_iff, ?_⟩
  rw [← routes_eq_trails, positionRoutes, routes, routes, Int.toNat_natCast]

/-! ## Simple paths -/

/-- The ways from node to node between two positions that come to no node twice and have at most so
many calls. -/
def pathsWithin (edges : List Edge) (start goal : Int) (most : Option Nat) : Set (List Int) :=
  {is | is.head? = some start ∧ is.getLast? = some goal ∧ is.Nodup ∧ is.IsChain (Joins edges) ∧
    ∀ m ∈ most, is.length ≤ m + 1}

/-- Along every path there is a trail. -/
theorem exists_trail_of_isChain {edges : List Edge} {start goal : Int} {rest : List Int}
    (hchain : (start :: rest).IsChain (Joins edges)) (hnodup : (start :: rest).Nodup)
    (hlast : (start :: rest).getLast? = some goal) :
    ∃ way, (arrowsOf edges).Trail start goal way ∧
      (arrowsOf edges).stops start way = start :: rest := by
  induction rest generalizing start with
  | nil => exact ⟨[], Arrows.trail_nil_iff.2 (by simpa using hlast), rfl⟩
  | cons i rest ih =>
    obtain ⟨⟨e, he, hs, ht⟩, hrest⟩ := List.isChain_cons_cons.1 hchain
    obtain ⟨hnot, hnodup'⟩ := List.nodup_cons.1 hnodup
    rw [List.getLast?_cons_cons] at hlast
    obtain ⟨way, htrail, hstops⟩ := ih hrest hnodup' hlast
    obtain ⟨n, rfl⟩ := List.get_of_mem he
    subst hs ht
    exact ⟨n :: way, Arrows.trail_cons_iff.2 ⟨rfl, hstops ▸ hnot, htrail⟩, congrArg _ hstops⟩

/-- The paths are what the trails come to. -/
theorem image_stops_trailsWithin (edges : List Edge) (start goal : Int) (most : Option Nat) :
    (arrowsOf edges).stops start '' trailsWithin edges start goal most =
      pathsWithin edges start goal most := by
  ext is
  constructor
  · rintro ⟨way, ⟨htrail, hmost⟩, rfl⟩
    refine ⟨rfl, htrail.ends, htrail.simple, htrail.isChain.imp ?_, fun m hm => ?_⟩
    · rintro i j ⟨e, hs, ht⟩
      exact ⟨edges.get e, List.get_mem edges e, hs, ht⟩
    · rw [Arrows.stops, List.length_cons, List.length_map]
      exact Nat.succ_le_succ (hmost m hm)
  · rintro ⟨hhead, hlast, hnodup, hchain, hmost⟩
    obtain ⟨rest, rfl⟩ := List.head?_eq_some_iff.1 hhead
    obtain ⟨way, htrail, hstops⟩ := exists_trail_of_isChain hchain hnodup hlast
    refine ⟨way, ⟨htrail, fun m hm => ?_⟩, hstops⟩
    have hle := hmost m hm
    rw [← hstops, Arrows.stops, List.length_cons, List.length_map] at hle
    exact Nat.le_of_succ_le_succ hle

/-! ## Routes -/

theorem location_of_siteAt {g : CallGraph} {i : Int} (hi : i ∈ positions g.nodes.length) {s : Site}
    (h : g.siteAt i = .ok s) : g.nodes[i.toNat]? = some s.location := by
  obtain ⟨l, hl⟩ := itemAt_ok hi
  have hlocation : s.location = l := by
    rw [CallGraph.siteAt, hl] at h
    split at h
    · next heq => rw [Except.ok.inj heq, ← Except.ok.inj h]
    all_goals cases h
  rw [itemAt, at?_of_mem hi] at hl
  split at hl
  · next heq => rw [heq, hlocation, Except.ok.inj hl]
  · cases hl

/-- Positions are known by their sites, where no two nodes are the same. -/
theorem map_site_inj {g : CallGraph} (hnodes : g.nodes.Nodup) {site : Int → Site}
    (hsite : ∀ i ∈ positions g.nodes.length, g.siteAt i = .ok (site i)) {is js : List Int}
    (his : ∀ i ∈ is, i ∈ positions g.nodes.length) (hjs : ∀ j ∈ js, j ∈ positions g.nodes.length) :
    is.map site = js.map site ↔ is = js := by
  refine ⟨fun h => ?_, congrArg _⟩
  induction is generalizing js with
  | nil => exact (List.map_eq_nil_iff.1 h.symm).symm
  | cons i is ih =>
    obtain ⟨j, js, rfl, hij, hrest⟩ := List.map_eq_cons_iff.1 h.symm
    have hi := his i (.head _)
    have hj := hjs j (.head _)
    have heq : i = j := position_unique hnodes hi hj (by
      rw [location_of_siteAt hi (hsite i hi), location_of_siteAt hj (hsite j hj), hij])
    rw [heq, ih (fun i hi => his i (.tail _ hi)) (fun j hj => hjs j (.tail _ hj)) hrest.symm]

/-- In every call graph that `build` gives for an index, `findRoutes` by nodes tells simple paths
(`pathsWithin`). They are different iff of two trails with the same stops the later one has at least
`k` trails before it. If so, as many are told as asked for or as there are paths. -/
theorem findRoutes_node_nodup_iff (ix : Index) (o : BuildOptions) :
    ∃ g, build ix o = .ok g ∧ ∀ start ∈ positions g.nodes.length,
      ∀ goal ∈ positions g.nodes.length, ∀ (k : Int) (most : Option Nat), ∃ told : List (List Site),
        g.findRoutes start goal k (most.map Int.ofNat) .node = .ok (told.map .nodes) ∧
        (∀ sites ∈ told, ∃ is ∈ pathsWithin g.edges start goal most, g.sitesAt is = .ok sites) ∧
        (told.Nodup ↔
          ∀ way ∈ trailsWithin g.edges start goal most,
            ∀ later ∈ trailsWithin g.edges start goal most,
              (arrowsOf g.edges).stops start way = (arrowsOf g.edges).stops start later →
              way < later →
              k.toNat ≤ {other ∈ trailsWithin g.edges start goal most | other < later}.ncard) ∧
        (told.Nodup → told.length = min k.toNat (pathsWithin g.edges start goal most).ncard) := by
  obtain ⟨g, hg, hregular⟩ := build_regular ix o
  obtain ⟨site, hsite⟩ := g.exists_site hregular.owners
  refine ⟨g, hg, fun start hstart goal _ k most => ?_⟩
  obtain ⟨all, hsorted, hmem, hroutes⟩ := g.exists_sorted_trails start goal k most
  let told : List (Fin (arrowsOf g.edges).count) → List Site := fun way =>
    ((arrowsOf g.edges).stops start way).map site
  have hstops := fun way => mem_positions_of_stops hregular.edges hstart way
  refine ⟨(all.take k.toNat).map told, ?_, ?_, ?_, ?_⟩
  · rw [findRoutes_node_eq hsite hregular.edges hstart, hroutes, List.map_map,
      List.map_map, List.map_map]
    rfl
  · intro sites hsites
    obtain ⟨way, hway, rfl⟩ := List.mem_map.1 hsites
    have hin := (hmem way).1 (List.mem_of_mem_take hway)
    exact ⟨_, image_stops_trailsWithin g.edges start goal most ▸ Set.mem_image_of_mem _ hin,
      sitesAt_eq hsite (hstops way)⟩
  · rw [nodup_map_take_iff hsorted]
    simp only [told, hmem, map_site_inj hregular.nodes hsite (hstops _) (hstops _)]
  · intro hnodup
    have htold : (all.take k.toNat).map told =
        ((all.take k.toNat).map ((arrowsOf g.edges).stops start)).map (List.map site) := by
      rw [List.map_map]
      rfl
    have hall : {way | way ∈ all} = trailsWithin g.edges start goal most := Set.ext hmem
    rw [htold] at hnodup ⊢
    rw [List.length_map, length_map_take hnodup.of_map, hall, image_stops_trailsWithin]

/-- Four functions: the first calls the second twice and the third once, and both call the last. -/
def twiceCalled : Index :=
  let line (n : Int) : Location := ⟨.here, n, 0, n, 9, 10 * n, 10 * n + 9⟩
  .linked ((((Linked.empty.addDefinition (.function "a")
      ⟨line 1, none, [⟨.function "b", line 2⟩, ⟨.function "b", line 3⟩, ⟨.function "c", line 4⟩],
        none, none⟩).addDefinition
    (.function "b") ⟨line 5, none, [⟨.function "d", line 6⟩], none, none⟩).addDefinition
    (.function "c") ⟨line 7, none, [⟨.function "d", line 8⟩], none, none⟩).addDefinition
    (.function "d") ⟨line 9, none, [], none, none⟩)

/-- Two routes are asked for, and the one through the second function is told twice instead of the
one through the third. -/
theorem findRoutes_node_nodup_iff_twiceCalled :
    ∃ g, build twiceCalled ⟨true, .forward, [], false⟩ = .ok g ∧
      (0 : Int) ∈ positions g.nodes.length ∧ (3 : Int) ∈ positions g.nodes.length ∧
      (∃ sites, g.sitesAt [0, 1, 3] = .ok sites ∧
        g.findRoutes 0 3 2 none .node = .ok [.nodes sites, .nodes sites]) ∧
      [0, 1, 3] ∈ pathsWithin g.edges 0 3 none ∧ [0, 2, 3] ∈ pathsWithin g.edges 0 3 none ∧
      ∃ way ∈ trailsWithin g.edges 0 3 none, ∃ later ∈ trailsWithin g.edges 0 3 none,
        (arrowsOf g.edges).stops 0 way = (arrowsOf g.edges).stops 0 later ∧ way < later ∧
        {other ∈ trailsWithin g.edges 0 3 none | other < later}.ncard < 2 := by
  obtain ⟨g, hg, hall⟩ := findRoutes_node_nodup_iff twiceCalled ⟨true, .forward, [], false⟩
  have hsize : (build twiceCalled ⟨true, .forward, [], false⟩).map (·.nodes.length) = .ok 4 := by
    decide +kernel
  have hjoined : (build twiceCalled ⟨true, .forward, [], false⟩).map (·.edges) =
      .ok [⟨0, 1, .must⟩, ⟨0, 1, .must⟩, ⟨0, 2, .must⟩, ⟨1, 3, .must⟩, ⟨2, 3, .must⟩] := by
    decide +kernel
  let sites : List Site := [⟨.function "a", ⟨.here, 1, 0, 1, 9, 10, 19⟩⟩,
    ⟨.function "b", ⟨.here, 5, 0, 5, 9, 50, 59⟩⟩, ⟨.function "d", ⟨.here, 9, 0, 9, 9, 90, 99⟩⟩]
  have hsites : (build twiceCalled ⟨true, .forward, [], false⟩).bind (·.sitesAt [0, 1, 3]) =
      .ok sites := by decide +kernel
  have hfound : (build twiceCalled ⟨true, .forward, [], false⟩).bind
      (·.findRoutes 0 3 2 none .node) = .ok [.nodes sites, .nodes sites] := by decide +kernel
  rw [hg] at hsize hjoined hsites hfound
  have hlength : g.nodes.length = 4 := Except.ok.inj hsize
  have hedges : g.edges = _ := Except.ok.inj hjoined
  have hstart : (0 : Int) ∈ positions g.nodes.length := by rw [hlength]; decide
  have hgoal : (3 : Int) ∈ positions g.nodes.length := by rw [hlength]; decide
  have hpath : ∀ i ∈ [1, 2], [0, i, 3] ∈ pathsWithin g.edges 0 3 none := by
    simp [hedges, pathsWithin, Joins]
  refine ⟨g, hg, hstart, hgoal, ⟨sites, hsites, hfound⟩, hpath 1 (by decide), hpath 2 (by decide),
    ?_⟩
  obtain ⟨told, htold, -, hiff, -⟩ := hall 0 hstart 3 hgoal 2 none
  have htwice : told = [sites, sites] := by
    have heq : told.map Route.nodes = [sites, sites].map Route.nodes :=
      Except.ok.inj (htold.symm.trans hfound)
    exact List.map_injective_iff.2 (fun _ _ h => Route.nodes.inj h) heq
  have hrepeated : ¬ told.Nodup := by simp [htwice]
  rw [hiff] at hrepeated
  push Not at hrepeated
  exact hrepeated

end CallAtlas.Graph
