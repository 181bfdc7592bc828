import CallAtlas.Proofs.Graph.Parts

/-! # Routes cut at the borders of components

`Cuts g components pairs sites segments`: the segments are the sites of a route, cut where the route
goes from one component to another. A call leads to a component with a smaller number or stays in
its component (`Condensed.joins`, `Condensed.lt`), so a route that has left a component does not
come back to it.

* `findRoutes_hybrid_cuts`: the routes told by components and nodes are those told by nodes, cut. -/

namespace CallAtlas.Graph

/-! ## Stretches -/

section Stretches

variable {components : List (List Int)}

/-- The first stretch lies in the component of the first position. -/
theorem stretches_head {i c : Int} (hi : componentOf? components i = some c) (is : List Int) :
    ∃ js rest, stretches components (i :: is) = (c, i :: js) :: rest := by
  rw [stretches, hi]
  dsimp only
  split
  · next c' js rest hrest =>
    by_cases hc : c = c'
    · exact ⟨js, rest, if_pos hc⟩
    · exact ⟨[], (c', js) :: rest, if_neg hc⟩
  · exact ⟨[], [], rfl⟩

/-- Nothing of a route is lost if every position is in a component. -/
theorem flatMap_stretches {is : List Int}
    (h : ∀ i ∈ is, ∃ c, componentOf? components i = some c) :
    (stretches components is).flatMap Prod.snd = is := by
  induction is with
  | nil => rfl
  | cons i is ih =>
    obtain ⟨c, hc⟩ := h i (.head _)
    have ih := ih fun i hi => h i (.tail _ hi)
    rw [stretches, hc]
    cases hrest : stretches components is with
    | nil =>
      rw [hrest] at ih
      simp [← ih]
    | cons s rest =>
      rw [hrest] at ih
      dsimp only
      split <;> simp [← ih]

theorem mem_of_mem_stretches {is : List Int}
    (h : ∀ i ∈ is, ∃ c, componentOf? components i = some c) {s : Int × List Int}
    (hs : s ∈ stretches components is) {i : Int} (hi : i ∈ s.2) : i ∈ is := by
  rw [← flatMap_stretches h]
  exact List.mem_flatMap.2 ⟨s, hs, hi⟩

/-- A stretch is not empty and lies in its component. -/
theorem mem_stretches {is : List Int} {s : Int × List Int} (hs : s ∈ stretches components is) :
    s.2 ≠ [] ∧ ∀ i ∈ s.2, componentOf? components i = some s.1 := by
  induction is generalizing s with
  | nil => cases hs
  | cons i is ih =>
    rw [stretches] at hs
    cases hc : componentOf? components i with
    | none =>
      rw [hc] at hs
      exact ih hs
    | some c =>
      rw [hc] at hs
      cases hrest : stretches components is with
      | nil =>
        rw [hrest] at hs
        obtain rfl := List.mem_singleton.1 hs
        simp [hc]
      | cons t rest =>
        rw [hrest] at hs ih
        obtain ⟨c', js⟩ := t
        dsimp only at hs
        split at hs
        · next hcc =>
          rcases List.mem_cons.1 hs with rfl | hs
          · -- the stretch goes on
            subst hcc
            exact ⟨by simp, List.forall_mem_cons.2 ⟨hc, (ih (.head _)).2⟩⟩
          · exact ih (.tail _ hs)
        · rcases List.mem_cons.1 hs with rfl | hs
          · simp [hc]
          · exact ih hs

/-- The components of a route follow each other as its positions do, where one component is told
only once. -/
theorem isChain_stretches {R S : Int → Int → Prop} {is : List Int}
    (hRS : ∀ i j a b, R i j → componentOf? components i = some a →
      componentOf? components j = some b → a = b ∨ S a b)
    (h : ∀ i ∈ is, ∃ c, componentOf? components i = some c) (hR : is.IsChain R) :
    ((stretches components is).map Prod.fst).IsChain S := by
  induction is with
  | nil => exact .nil
  | cons i is ih =>
    obtain ⟨c, hc⟩ := h i (.head _)
    have ih := ih (fun i hi => h i (.tail _ hi)) hR.tail
    cases is with
    | nil =>
      rw [stretches, hc]
      exact .singleton c
    | cons j is =>
      obtain ⟨d, hd⟩ := h j (.tail _ (.head _))
      obtain ⟨js, rest, hrest⟩ := stretches_head hd is
      have hij := hRS i j c d (List.isChain_cons_cons.1 hR).1 hc hd
      rw [stretches, hc]
      rw [hrest] at ih ⊢
      dsimp only
      split
      · next hcd => rwa [← hcd] at ih
      · next hcd => exact List.isChain_cons_cons.2 ⟨hij.resolve_left hcd, ih⟩

end Stretches

/-! ## Sites -/

theorem eachOk_eq {α β : Type} {f : α → Except Error β} {g : α → β} {as : List α}
    (h : ∀ a ∈ as, f a = .ok (g a)) : eachOk f as = .ok (as.map g) := by
  induction as with
  | nil => rfl
  | cons a as ih =>
    simp only [eachOk, h a (.head _), ih fun a ha => h a (.tail _ ha), List.map_cons]

section Sites

variable {g : CallGraph} {site : Int → Site}
  (hsite : ∀ i ∈ positions g.nodes.length, g.siteAt i = .ok (site i))
include hsite

theorem sitesAt_eq {is : List Int} (h : ∀ i ∈ is, i ∈ positions g.nodes.length) :
    g.sitesAt is = .ok (is.map site) := by
  induction is with
  | nil => rfl
  | cons i is ih =>
    simp only [CallGraph.sitesAt, hsite i (h i (.head _)), ih fun i hi => h i (.tail _ hi),
      List.map_cons]

theorem segments_eq {cut : List (Int × List Int)}
    (h : ∀ s ∈ cut, ∀ i ∈ s.2, i ∈ positions g.nodes.length) :
    g.segments cut = .ok (cut.map fun s => ⟨s.1, some (s.2.map site)⟩) := by
  induction cut with
  | nil => rfl
  | cons s cut ih =>
    obtain ⟨c, is⟩ := s
    have hs := sitesAt_eq hsite (h (c, is) (.head _))
    simp only [CallGraph.segments, hs, ih fun s hs => h s (.tail _ hs), List.map_cons]

end Sites

/-- Every position of a graph whose nodes have owners has a site. -/
theorem CallGraph.exists_site {g : CallGraph} (howners : g.owners.length = g.nodes.length) :
    ∃ site : Int → Site, ∀ i ∈ positions g.nodes.length, g.siteAt i = .ok (site i) := by
  refine ⟨fun i => (g.siteAt i).toOption.getD default, fun i hi => ?_⟩
  obtain ⟨l, hl⟩ := itemAt_ok hi
  have hi' : i ∈ positions g.owners.length := by rwa [howners]
  obtain ⟨s, hs⟩ := itemAt_ok hi'
  have hsite : g.siteAt i = .ok ⟨s, l⟩ := by rw [siteAt, hs, hl]
  simp only [hsite]
  rfl

/-! ## Routes -/

/-- `segments` are the sites of a route, cut where it goes from one component to another. -/
structure Cuts (g : CallGraph) (components : List (List Int)) (pairs : List (Int × Int))
    (sites : List Site) (segments : List Segment) : Prop where
  whole : segments.flatMap (fun s => s.nodes.getD []) = sites
  inside : ∀ s ∈ segments, ∃ stretch, s.nodes = some stretch ∧ stretch ≠ [] ∧
    ∀ site ∈ stretch, ∃ i, Holds components s.component i ∧ g.siteAt i = .ok site
  once : (segments.map Segment.component).Nodup
  joined : (segments.map Segment.component).IsChain fun a b => (a, b) ∈ pairs

/-- A route along calls is cut by its stretches. -/
theorem cuts_stretches {g : CallGraph} {components : List (List Int)} {pairs : List (Int × Int)}
    {site : Int → Site} (hsite : ∀ i ∈ positions g.nodes.length, g.siteAt i = .ok (site i))
    (h : Condensed g.nodes.length g.edges components pairs) {is : List Int}
    (his : ∀ i ∈ is, i ∈ positions g.nodes.length) (hchain : is.IsChain (Joins g.edges)) :
    Cuts g components pairs (is.map site)
      ((stretches components is).map fun s => ⟨s.1, some (s.2.map site)⟩) := by
  have hcover := fun i hi => h.exists_componentOf? (his i hi)
  have hjoined : ((stretches components is).map Prod.fst).IsChain fun a b => (a, b) ∈ pairs :=
    isChain_stretches (fun i j a b hij ha hb =>
      h.joins hij (h.componentOf?_iff.1 ha) (h.componentOf?_iff.1 hb)) hcover hchain
  have hfst : ((stretches components is).map fun s => (⟨s.1, some (s.2.map site)⟩ : Segment)).map
      Segment.component = (stretches components is).map Prod.fst := List.map_map
  refine ⟨?_, ?_, ?_, hfst ▸ hjoined⟩
  · rw [List.flatMap_map]
    conv_rhs => rw [← flatMap_stretches hcover, List.map_flatMap]
    rfl
  · intro s hs
    obtain ⟨t, ht, rfl⟩ := List.mem_map.1 hs
    obtain ⟨hne, hin⟩ := mem_stretches ht
    refine ⟨_, rfl, by simpa using hne, fun x hx => ?_⟩
    obtain ⟨i, hi, rfl⟩ := List.mem_map.1 hx
    exact ⟨i, h.componentOf?_iff.1 (hin i hi), hsite i (his i (mem_of_mem_stretches hcover ht hi))⟩
  · -- the numbers fall, so none comes back
    rw [hfst]
    have hfall : ((stretches components is).map Prod.fst).IsChain (· > ·) :=
      hjoined.imp fun a b hab => h.lt hab
    exact (List.isChain_iff_pairwise.1 hfall).imp fun hab => Int.ne_of_gt hab

/-- Whatever is asked for, the positions of a route follow each other along calls. -/
theorem isChain_positionRoutes {g : CallGraph} (hedges : InRange g.nodes.length g.edges)
    {start goal k : Int} {most : Option Int} (hstart : start ∈ positions g.nodes.length)
    {is : List Int} (his : is ∈ g.positionRoutes start goal k most) :
    is.IsChain (Joins g.edges) ∧ ∀ i ∈ is, i ∈ positions g.nodes.length := by
  obtain ⟨ways, hways, htrails⟩ := g.exists_ways start goal k most
  rw [hways] at his
  obtain ⟨way, hway, rfl⟩ := List.mem_map.1 his
  refine ⟨(htrails way hway).isChain.imp ?_, mem_positions_of_stops hedges hstart way⟩
  rintro i j ⟨e, hs, ht⟩
  exact ⟨g.edges.get e, List.get_mem g.edges e, hs, ht⟩

/-- The routes told by nodes are the sites of their positions. -/
theorem findRoutes_node_eq {g : CallGraph} {site : Int → Site}
    (hsite : ∀ i ∈ positions g.nodes.length, g.siteAt i = .ok (site i))
    (hedges : InRange g.nodes.length g.edges) {start goal k : Int} {most : Option Int}
    (hstart : start ∈ positions g.nodes.length) :
    g.findRoutes start goal k most .node =
      .ok (((g.positionRoutes start goal k most).map (List.map site)).map .nodes) := by
  rw [CallGraph.findRoutes, List.map_map]
  refine eachOk_eq fun is his => ?_
  rw [sitesAt_eq hsite (isChain_positionRoutes hedges hstart his).2]
  rfl

/-- In every call graph that `build` gives for an index, whatever number and length of routes is
asked for, the routes that `findRoutes` tells by components and nodes are those it tells by nodes,
in the same order, each of which it `Cuts`: put together again the nodes are the same, every segment
has nodes and these are in its component, no component comes twice, and one follows another along an
edge between components. -/
theorem findRoutes_hybrid_cuts (ix : Index) (o : BuildOptions) :
    ∃ g components pairs, build ix o = .ok g ∧ g.componentList = .ok components ∧
      condense components g.edges = .ok pairs ∧
      ∀ start ∈ positions g.nodes.length, ∀ goal ∈ positions g.nodes.length,
        ∀ (k : Int) (most : Option Int), ∃ (told : List (List Site)) (cut : List (List Segment)),
          g.findRoutes start goal k most .node = .ok (told.map .nodes) ∧
          g.findRoutes start goal k most .hybrid = .ok (cut.map .hybrid) ∧
          List.Forall₂ (Cuts g components pairs) told cut := by
  obtain ⟨g, hg, hregular⟩ := build_regular ix o
  obtain ⟨components, pairs, hcomponents, hpairs, -, hcondensed⟩ := hregular.condensed
  obtain ⟨site, hsite⟩ := g.exists_site hregular.owners
  refine ⟨g, components, pairs, hg, hcomponents, hpairs, ?_⟩
  intro start hstart goal _ k most
  have hroute : ∀ is ∈ g.positionRoutes start goal k most,
      is.IsChain (Joins g.edges) ∧ ∀ i ∈ is, i ∈ positions g.nodes.length := fun is his =>
    isChain_positionRoutes hregular.edges hstart his
  refine ⟨(g.positionRoutes start goal k most).map (List.map site),
    (g.positionRoutes start goal k most).map fun is =>
      (stretches components is).map fun s => ⟨s.1, some (s.2.map site)⟩,
    findRoutes_node_eq hsite hregular.edges hstart, ?_, ?_⟩
  · rw [CallGraph.findRoutes, hcomponents, List.map_map]
    refine eachOk_eq fun is his => ?_
    rw [segments_eq hsite]
    · rfl
    · intro s hs i hi
      exact (hroute is his).2 i (mem_of_mem_stretches
        (fun i hi => hcondensed.exists_componentOf? ((hroute is his).2 i hi)) hs hi)
  · rw [List.forall₂_map_left_iff, List.forall₂_map_right_iff, List.forall₂_same]
    exact fun is his => cuts_stretches hsite hcondensed (hroute is his).2 (hroute is his).1

/-- Two functions that call each other, and a third that the second calls. -/
def loopAndLeaf : Index :=
  let line (n : Int) : Location := ⟨.here, n, 0, n, 9, 10 * n, 10 * n + 9⟩
  .linked (((Linked.empty.addDefinition (.function "a")
      ⟨line 1, none, [⟨.function "b", line 2⟩], none, none⟩).addDefinition
    (.function "b")
      ⟨line 3, none, [⟨.function "a", line 4⟩, ⟨.function "c", line 5⟩], none, none⟩).addDefinition
    (.function "c") ⟨line 6, none, [], none, none⟩)

/-- From the first function to the third the way is in the component of two functions first. -/
theorem findRoutes_hybrid_cuts_loopAndLeaf :
    ∃ g components pairs, build loopAndLeaf ⟨true, .forward, [], false⟩ = .ok g ∧
      (0 : Int) ∈ positions g.nodes.length ∧ (2 : Int) ∈ positions g.nodes.length ∧
      Cuts g components pairs
        [⟨.function "a", ⟨.here, 1, 0, 1, 9, 10, 19⟩⟩, ⟨.function "b", ⟨.here, 3, 0, 3, 9, 30, 39⟩⟩,
          ⟨.function "c", ⟨.here, 6, 0, 6, 9, 60, 69⟩⟩]
        [⟨1, some [⟨.function "a", ⟨.here, 1, 0, 1, 9, 10, 19⟩⟩,
            ⟨.function "b", ⟨.here, 3, 0, 3, 9, 30, 39⟩⟩]⟩,
          ⟨0, some [⟨.function "c", ⟨.here, 6, 0, 6, 9, 60, 69⟩⟩]⟩] := by
  obtain ⟨g, components, pairs, hg, -, -, hall⟩ :=
    findRoutes_hybrid_cuts loopAndLeaf ⟨true, .forward, [], false⟩
  have hsize : (build loopAndLeaf ⟨true, .forward, [], false⟩).map (·.nodes.length) = .ok 3 := by
    decide +kernel
  have hfound : (build loopAndLeaf ⟨true, .forward, [], false⟩).bind
      (fun g => g.findRoutes 0 2 5 none .hybrid) = .ok [.hybrid
        [⟨1, some [⟨.function "a", ⟨.here, 1, 0, 1, 9, 10, 19⟩⟩,
            ⟨.function "b", ⟨.here, 3, 0, 3, 9, 30, 39⟩⟩]⟩,
          ⟨0, some [⟨.function "c", ⟨.here, 6, 0, 6, 9, 60, 69⟩⟩]⟩]] := by decide +kernel
  rw [hg] at hsize hfound
  have hlength : g.nodes.length = 3 := Except.ok.inj hsize
  rw [hlength] at hall
  obtain ⟨told, cut, -, hcut, hcuts⟩ := hall 0 (by decide) 2 (by decide) 5 none
  have hcut' : cut.map Route.hybrid = [.hybrid _] := Except.ok.inj (hcut.symm.trans hfound)
  obtain ⟨segments, rest, rfl, hsegments, hrest⟩ := List.map_eq_cons_iff.1 hcut'
  obtain rfl := List.map_eq_nil_iff.1 hrest
  cases hsegments
  obtain ⟨sites, told', hsites, htold, rfl⟩ := List.forall₂_cons_right_iff.1 hcuts
  refine ⟨g, components, pairs, hg, by rw [hlength]; decide, by rw [hlength]; decide, ?_⟩
  have hwhole := hsites.whole
  rwa [← hwhole] at hsites

end CallAtlas.Graph
