import CallAtlas.Language.Python
import CallAtlas.Proofs.Graph.Traversal
import CallAtlas.Proofs.Service.Tools

/-! # What is shown of the call graph

An overview of the call graph shows its components, and some nodes where it begins and where it
ends. These are taken from the components that no other one calls, or that call no other one
(`Fringe`), and as calls between components go round no circle there always are such components.
Only a graph without nodes has none, and then the overview fails.

A part of the call graph is what some places lead to. Places that are no nodes are passed over, and
if no place is left, nothing is taken away.

* `graphOverview_addsUp_iff`: the overview of a call graph adds up iff the graph has a node.
* `graphPart_within_iff`: a part holds only what its roots lead to iff one of them is a node. -/

namespace CallAtlas.Service

open CallAtlas.Graph

/-! ## Overviews -/

/-- A component with its number is shown by its size and its first five nodes. -/
structure ComponentSample.Shows (g : CallGraph) (c : List Int × Nat) (shown : ComponentSample) :
    Prop where
  id : shown.id = c.2
  size : shown.size = c.1.length
  sample : Picks g.nodes (c.1.take 5) shown.sample

/-- A component that no other one calls or, seen backward, that calls no other one. -/
structure Outermost (g : CallGraph) (d : Direction) (c : List Int) : Prop where
  mem : c ∈ g.components
  closed : ∀ e ∈ d.apply g.edges, e.target ∈ c → e.source ∈ c

/-- At most ten nodes but not none, all of them in outermost components. -/
structure Fringe (g : CallGraph) (d : Direction) (shown : List Location) : Prop where
  length_le : shown.length ≤ 10
  ne_nil : shown ≠ []
  outermost : ∀ l ∈ shown, ∃ c, Outermost g d c ∧ ∃ i ∈ c, g.nodes[i.toNat]? = some l

/-- An overview that accounts for every node of a graph. -/
structure Overview.AddsUp (g : CallGraph) (o : Overview) : Prop where
  stats : o.stats = g.stats
  components : List.Forall₂ (ComponentSample.Shows g) g.components.zipIdx o.components
  total : (o.components.map ComponentSample.size).sum = g.nodes.length
  entryPoints : Fringe g .forward o.entryPoints
  endPoints : Fringe g .backward o.endPoints

theorem samples_shows {g : CallGraph} {cs : List (List Int × Nat)}
    (h : ∀ c ∈ cs, ∀ i ∈ c.1, i ∈ positions g.nodes.length) :
    ∃ shown, samples g cs = .ok shown ∧ List.Forall₂ (ComponentSample.Shows g) cs shown := by
  induction cs with
  | nil => exact ⟨[], rfl, .nil⟩
  | cons c cs ih =>
    obtain ⟨shown, hshown, hall⟩ := ih fun c hc => h c (.tail _ hc)
    obtain ⟨sample, hsample, hpicks⟩ := itemsAt_picks fun i hi =>
      h c (.head _) i (List.mem_of_mem_take hi)
    refine ⟨⟨c.2, c.1.length, sample⟩ :: shown, ?_, .cons ⟨rfl, rfl, hpicks⟩ hall⟩
    simp only [samples, hsample, hshown]

theorem map_size_of_shows {g : CallGraph} {cs : List (List Int × Nat)}
    {shown : List ComponentSample} (h : List.Forall₂ (ComponentSample.Shows g) cs shown) :
    shown.map ComponentSample.size = cs.map (List.length ∘ Prod.fst) := by
  induction h with
  | nil => rfl
  | cons hc _ ih => rw [List.map_cons, List.map_cons, ih, hc.size, Function.comp_apply]

/-- The sizes of the components that are shown add up to the number of nodes. -/
theorem sum_sizes {g : CallGraph} {shown : List ComponentSample}
    (h : Condensed g.nodes.length g.edges g.components g.componentEdges)
    (hall : List.Forall₂ (ComponentSample.Shows g) g.components.zipIdx shown) :
    (shown.map ComponentSample.size).sum = g.nodes.length := by
  have hsizes : shown.map ComponentSample.size = g.components.map List.length := by
    rw [map_size_of_shows hall, ← List.map_map, List.zipIdx_map_fst]
  have hperm : g.components.flatten.Perm (positions g.nodes.length) :=
    (List.perm_ext_iff_of_nodup h.parts.nodup (nodup_positions _)).2 h.parts.mem_iff
  rw [hsizes, ← List.length_flatten, hperm.length_eq]
  simp [positions]

/-- Where a graph with nodes begins, or ends, some nodes are shown. -/
theorem exists_fringe {g : CallGraph}
    (h : Condensed g.nodes.length g.edges g.components g.componentEdges)
    (hedges : InRange g.nodes.length g.edges) (hnodes : g.nodes ≠ []) {d : Direction}
    (hd : d ≠ .both) :
    ∃ shown, itemsAt g.nodes ((g.starts d).take 10) = .ok shown ∧ Fringe g d shown := by
  have hpos := List.length_pos_iff.2 hnodes
  have hsome := h.components_ne_nil hpos
  have hstarts := fun i => h.mem_starts_iff (i := i) hedges hsome hd
  have hrange : ∀ i ∈ (g.starts d).take 10, i ∈ positions g.nodes.length := by
    intro i hi
    obtain ⟨a, ha, -⟩ := (hstarts i).1 (List.mem_of_mem_take hi)
    exact h.mem_positions_of_holds ha
  obtain ⟨shown, hshown, hpicks⟩ := itemsAt_picks hrange
  refine ⟨shown, hshown, ?_, ?_, fun l hl => ?_⟩
  · rw [hpicks.length_eq]
    exact List.length_take_le _ _
  · -- components are numbered along the calls, so one of them is not entered
    obtain ⟨i, hi, -⟩ := h.exists_start (i := 0) hedges hsome hd (mem_positions.2 (by omega))
    have hstart := List.length_pos_of_mem hi
    rw [← List.length_pos_iff, hpicks.length_eq, List.length_take]
    omega
  · obtain ⟨i, hi, hget⟩ := hpicks.mem_iff.1 hl
    obtain ⟨a, ⟨m, c, rfl, hm, hic⟩, hclosed⟩ := (hstarts i).1 (List.mem_of_mem_take hi)
    refine ⟨c, ⟨List.mem_of_getElem? hm, fun e he ht => ?_⟩, i, hic, hget⟩
    exact (holds_iff_mem hm).1 (hclosed e he ((holds_iff_mem hm).2 ht))

/-- The overview of a graph with nodes adds up. -/
theorem overviewOf_addsUp {g : CallGraph}
    (h : Condensed g.nodes.length g.edges g.components g.componentEdges)
    (hedges : InRange g.nodes.length g.edges) (hnodes : g.nodes ≠ []) :
    ∃ o, overviewOf g = .ok o ∧ o.AddsUp g := by
  have hrange : ∀ c ∈ g.components.zipIdx, ∀ i ∈ c.1, i ∈ positions g.nodes.length := by
    intro c hc i hi
    have hmem := List.mem_of_getElem? (List.mem_zipIdx_iff_getElem?.1 hc)
    exact (h.parts.mem_iff i).1 (List.mem_flatten_of_mem hmem hi)
  obtain ⟨shown, hshown, hall⟩ := samples_shows hrange
  obtain ⟨entry, hentry, hbegin⟩ := exists_fringe h hedges hnodes (d := .forward) (by decide)
  obtain ⟨exit, hexit, hend⟩ := exists_fringe h hedges hnodes (d := .backward) (by decide)
  refine ⟨⟨g.stats, shown, entry, exit⟩, ?_, rfl, hall, sum_sizes h hall, hbegin, hend⟩
  simp only [overviewOf, hshown, hentry, hexit, bind, Except.bind]
  rfl

/-- A graph without nodes has no components, so its first position is looked for, which is not
there. -/
theorem overviewOf_of_nodes_nil {g : CallGraph}
    (h : Condensed g.nodes.length g.edges g.components g.componentEdges) (hnodes : g.nodes = []) :
    overviewOf g = .error .outOfRange := by
  have hcomponents : g.components = [] := by
    refine List.eq_nil_iff_forall_not_mem.2 fun c hc => ?_
    obtain ⟨i, hi⟩ := List.exists_mem_of_ne_nil c (h.parts.inhabited c hc)
    have hpos := (h.parts.mem_iff i).1 (List.mem_flatten_of_mem hc hi)
    simp [hnodes, positions] at hpos
  have hstarts : g.starts .forward = [0] := by
    simp [CallGraph.starts, hcomponents, sources, hnodes, positions]
  simp only [overviewOf, hcomponents, hstarts, hnodes]
  rfl

/-- Whatever index is set up, `graphOverview` is given and `AddsUp` iff its call graph has a node:
the sizes of the components add up to the number of nodes, and where the graph begins and where it
ends (`Fringe`) at most ten nodes are shown but not none, all of them in components that no other
one calls, or that call no other one. For a graph without nodes it fails. -/
theorem graphOverview_addsUp_iff (s : Service) (st : Setup) (hsetup : s.setup = some st)
    (hgraph : ∀ g ∈ s.graph, build st.indexer.index ⟨true, .forward, [], true⟩ = .ok g) :
    ∃ g, build st.indexer.index ⟨true, .forward, [], true⟩ = .ok g ∧
      Condensed g.nodes.length g.edges g.components g.componentEdges ∧
      ((∃ o, graphOverview.on s = (.ok o, { s with graph := some g }) ∧ o.AddsUp g) ↔
        g.nodes ≠ []) ∧
      (g.nodes = [] →
        graphOverview.on s = (.error (.graph .outOfRange), { s with graph := some g })) := by
  obtain ⟨g, hbuild, hg⟩ := build_regular st.indexer.index ⟨true, .forward, [], true⟩
  have hcondensed := (Part.condensed hg.edges (components_of_build hbuild)).2.2
  have hon : graphOverview.on s =
      ((overviewOf g).mapError .graph, { s with graph := some g }) := by
    rw [graphOverview, on_bind, on_callGraph_of_current hsetup hgraph hbuild]
    exact on_lift _ _
  have hempty : g.nodes = [] →
      graphOverview.on s = (.error (.graph .outOfRange), { s with graph := some g }) := by
    intro hnodes
    rw [hon, overviewOf_of_nodes_nil hcondensed hnodes]
    rfl
  refine ⟨g, hbuild, hcondensed, ⟨?_, fun hnodes => ?_⟩, hempty⟩
  · rintro ⟨o, ho, -⟩ hnodes
    rw [hempty hnodes] at ho
    cases ho
  · obtain ⟨o, ho, hadds⟩ := overviewOf_addsUp hcondensed hg.edges hnodes
    refine ⟨o, ?_, hadds⟩
    rw [hon, ho]
    rfl

/-- A service that has nothing but an index. -/
def serving (ix : Index) : Service :=
  { Service.start (.empty []) with
    setup := some ⟨{ Indexer.start Language.python .linked true with index := ix },
      .here, .document, 0⟩ }

theorem current_serving (ix : Index) :
    ∀ g ∈ (serving ix).graph, build ix ⟨true, .forward, [], true⟩ = .ok g := by
  intro g hg
  cases hg

/-- The overview of three functions counts all of them. Without any function there is none. -/
theorem graphOverview_addsUp_iff_detour :
    (∃ g o, build detour ⟨true, .forward, [], true⟩ = .ok g ∧
      (graphOverview.on (serving detour)).1 = .ok o ∧ o.AddsUp g ∧
      (o.components.map ComponentSample.size).sum = 3) ∧
    (graphOverview.on (serving (.linked .empty))).1 = .error (.graph .outOfRange) := by
  constructor
  · obtain ⟨g, hg, -, hiff, -⟩ := graphOverview_addsUp_iff (serving detour) _ rfl
      (current_serving detour)
    have hlength : g.nodes.length = 3 := by
      rw [nodes_of_build hg]
      decide
    obtain ⟨o, ho, hadds⟩ := hiff.2 fun hnodes => by simp [hnodes] at hlength
    exact ⟨g, o, hg, by rw [ho], hadds, hadds.total.trans hlength⟩
  · obtain ⟨g, hg, -, -, hempty⟩ := graphOverview_addsUp_iff (serving (.linked .empty)) _ rfl
      (current_serving _)
    rw [hempty (nodes_of_build hg)]

/-! ## Parts -/

/-- A place that one of the roots leads to by at most `depth` calls. -/
def CalledWithin (g : CallGraph) (roots : List Location) (depth : Nat) (l : Location) : Prop :=
  ∃ i, g.nodes[i.toNat]? = some l ∧ Near g.edges (Marked g.nodes roots) (some depth) i

theorem mem_positionsAmong {g : CallGraph} {places : List Location} {i : Int} :
    i ∈ positionsAmong g places ↔ Marked g.nodes places i := by
  simp only [positionsAmong, List.mem_filterMap, Prod.exists, List.mk_mem_zipIdx_iff_getElem?,
    Option.ite_none_right_eq_some, Option.some.injEq]
  constructor
  · rintro ⟨l, k, hk, hl, rfl⟩
    have hlt := (List.getElem?_eq_some_iff.1 hk).1
    exact ⟨mem_positions.2 ⟨by simp, by simpa using hlt⟩, l, hl, hk⟩
  · rintro ⟨hi, l, hl, hget⟩
    exact ⟨l, i.toNat, hget, hl, Int.toNat_of_nonneg (mem_positions.1 hi).1⟩

theorem exists_marked {g : CallGraph} {places : List Location} {l : Location} (hl : l ∈ places)
    (hnode : l ∈ g.nodes) : ∃ i, Marked g.nodes places i ∧ g.nodes[i.toNat]? = some l := by
  obtain ⟨k, hk⟩ := List.mem_iff_getElem?.1 hnode
  have hlt := (List.getElem?_eq_some_iff.1 hk).1
  exact ⟨k, ⟨mem_positions.2 ⟨by omega, by omega⟩, l, hl, hk⟩, hk⟩

theorem positionsAmong_eq_nil_iff {g : CallGraph} {places : List Location} :
    positionsAmong g places = [] ↔ ∀ l ∈ places, l ∉ g.nodes := by
  rw [List.eq_nil_iff_forall_not_mem]
  constructor
  · intro hnone l hl hnode
    obtain ⟨i, hi, -⟩ := exists_marked hl hnode
    exact hnone i (mem_positionsAmong.2 hi)
  · intro hnone i hi
    obtain ⟨-, l, hl, hget⟩ := mem_positionsAmong.1 hi
    exact hnone l hl (List.mem_of_getElem? hget)

/-- A part keeps what is near the roots that are nodes, or everything if none of them is. -/
theorem subgraph_positionsAmong {g : CallGraph} (hg : g.Regular) (roots : List Location)
    (depth : Nat) :
    ∃ part keep, g.subgraph (positionsAmong g roots) (some depth) false = .ok part ∧
      g.part.Keeps part.part keep ∧ ∀ i, i ∈ keep ↔
        Near g.edges (Marked g.nodes roots) (some depth) i ∨
          i ∈ positions g.nodes.length ∧ ∀ l ∈ roots, l ∉ g.nodes := by
  by_cases hnone : ∀ l ∈ roots, l ∉ g.nodes
  · obtain ⟨part, hpart, hkeeps⟩ := CallGraph.subgraph_rootless hg.edges hg.owners.ge depth
    rw [positionsAmong_eq_nil_iff.2 hnone]
    refine ⟨part, _, hpart, hkeeps, fun i => ⟨fun hi => .inr ⟨hi, hnone⟩, ?_⟩⟩
    rintro (⟨r, ⟨-, l, hl, hget⟩, -⟩ | hi)
    · exact absurd (List.mem_of_getElem? hget) (hnone l hl)
    · exact hi.1
  · obtain ⟨part, keep, hpart, hkeeps, hnear⟩ := g.subgraph_keeps hg.nodes hg.edges hg.owners.ge
      (fun h => hnone (positionsAmong_eq_nil_iff.1 h))
      (fun i hi => (mem_positionsAmong.1 hi).1) (some depth) false
    refine ⟨part, keep, hpart, hkeeps, fun i => ?_⟩
    simp only [hnear, mem_positionsAmong, hnone, and_false, or_false]
    rfl

/-- Whatever index is set up, `graphPart` `Keeps` of its call graph what is `Near` the roots, at
most `depth` calls away, and every root that is a node; but if no root is a node, it keeps all
nodes. So all that it holds is `CalledWithin` this depth of its roots iff one of them is a node, or
the graph has no nodes. -/
theorem graphPart_within_iff (s : Service) (st : Setup) (hsetup : s.setup = some st)
    (hgraph : ∀ g ∈ s.graph, build st.indexer.index ⟨true, .forward, [], true⟩ = .ok g)
    (roots : List Location) (depth : Nat) :
    ∃ g part keep, build st.indexer.index ⟨true, .forward, [], true⟩ = .ok g ∧
      (graphPart roots depth).on s = (.ok part, { s with graph := some g }) ∧
      g.part.Keeps part.part keep ∧
      (∀ i, i ∈ keep ↔ Near g.edges (Marked g.nodes roots) (some depth) i ∨
        i ∈ positions g.nodes.length ∧ ∀ l ∈ roots, l ∉ g.nodes) ∧
      (∀ l ∈ roots, l ∈ g.nodes → l ∈ part.nodes) ∧
      ((∀ l ∈ part.nodes, CalledWithin g roots depth l) ↔
        g.nodes = [] ∨ ∃ l ∈ roots, l ∈ g.nodes) := by
  obtain ⟨g, hbuild, hg⟩ := build_regular st.indexer.index ⟨true, .forward, [], true⟩
  obtain ⟨part, keep, hpart, hkeeps, hkeep⟩ := subgraph_positionsAmong hg roots depth
  have hnodes : ∀ l, l ∈ part.nodes ↔ ∃ i ∈ keep, g.nodes[i.toNat]? = some l := fun l =>
    hkeeps.nodes.mem_iff
  have hon : (graphPart roots depth).on s = (.ok part, { s with graph := some g }) := by
    rw [graphPart, on_bind, on_callGraph_of_current hsetup hgraph hbuild]
    simp only [hpart, on_lift, Except.mapError]
  refine ⟨g, part, keep, hbuild, hon, hkeeps, hkeep, fun l hl hnode => ?_, ?_, ?_⟩
  · obtain ⟨i, hi, hget⟩ := exists_marked hl hnode
    refine (hnodes l).2 ⟨i, (hkeep i).2 (.inl ⟨i, hi, 0, by simp, .stay i⟩), hget⟩
  · intro hwithin
    by_contra hnot
    push Not at hnot
    obtain ⟨hsome, hnone⟩ := hnot
    -- the first node is kept, though nothing leads to it
    have hpos := List.length_pos_iff.2 hsome
    have hfirst : (0 : Int) ∈ positions g.nodes.length := mem_positions.2 (by omega)
    have hmem := (hnodes _).2 ⟨0, (hkeep 0).2 (.inr ⟨hfirst, hnone⟩), List.getElem?_eq_getElem hpos⟩
    obtain ⟨-, -, r, ⟨-, l, hl, hget⟩, -⟩ := hwithin _ hmem
    exact hnone l hl (List.mem_of_getElem? hget)
  · rintro hroot l hl
    obtain ⟨i, hi, hget⟩ := (hnodes l).1 hl
    rcases (hkeep i).1 hi with hnear | ⟨-, hnone⟩
    · exact ⟨i, hget, hnear⟩
    · rcases hroot with hempty | ⟨root, hroot, hnode⟩
      · simp [hempty] at hget
      · exact absurd hnode (hnone root hroot)

/-- Near the second of three functions there is only what it leads to, but near a place that is no
node there is something that it does not lead to. -/
theorem graphPart_within_iff_detour :
    ∃ g near far, build detour ⟨true, .forward, [], true⟩ = .ok g ∧
      ((graphPart [⟨.here, 4, 0, 4, 9, 40, 49⟩] 1).on (serving detour)).1 = .ok near ∧
      (∀ l ∈ near.nodes, CalledWithin g [⟨.here, 4, 0, 4, 9, 40, 49⟩] 1 l) ∧
      ((graphPart [⟨.here, 9, 0, 9, 9, 90, 99⟩] 0).on (serving detour)).1 = .ok far ∧
      ¬ ∀ l ∈ far.nodes, CalledWithin g [⟨.here, 9, 0, 9, 9, 90, 99⟩] 0 l := by
  obtain ⟨g, near, -, hg, hnear, -, -, -, hnearIff⟩ := graphPart_within_iff (serving detour) _ rfl
    (current_serving detour) [⟨.here, 4, 0, 4, 9, 40, 49⟩] 1
  obtain ⟨g', far, -, hg', hfar, -, -, -, hfarIff⟩ := graphPart_within_iff (serving detour) _ rfl
    (current_serving detour) [⟨.here, 9, 0, 9, 9, 90, 99⟩] 0
  obtain rfl : g = g' := Except.ok.inj (hg.symm.trans hg')
  have hnodes : g.nodes = [⟨.here, 1, 0, 1, 9, 10, 19⟩, ⟨.here, 4, 0, 4, 9, 40, 49⟩,
      ⟨.here, 6, 0, 6, 9, 60, 69⟩] := by
    rw [nodes_of_build hg]
    decide
  refine ⟨g, near, far, hg, congrArg Prod.fst hnear, hnearIff.2 (.inr ?_), congrArg Prod.fst hfar,
    fun h => ?_⟩
  · rw [hnodes]
    decide
  · rcases hfarIff.1 h with hempty | hroot
    · rw [hnodes] at hempty
      cases hempty
    · rw [hnodes] at hroot
      revert hroot
      decide

end CallAtlas.Service
