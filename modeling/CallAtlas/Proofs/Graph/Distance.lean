import CallAtlas.Proofs.Graph.Traversal
import Mathlib.Order.Bounds.Basic

/-! # Distances in a breadth-first order

`Away next start n v`: `n` steps lead from a start to `v`. A queue delivers vertices by their first
ways, and of two ways the shorter one comes first, so what is delivered earlier is no further away
(`exists_away_le`), and what is no start is delivered after a vertex that leads to it
(`exists_before`).

`StartsAt g d given i` says where a traversal of a call graph starts: at the given positions, as far
as they are positions of nodes, or else at what nothing leads to in the direction, by components if
they are known and by nodes otherwise.

* `traverse_outward`: every traversal comes to its end and visits each node once, first those that
  the starts lead to, by their distance. From starts that it has chosen by components it visits all
  nodes that way. -/

namespace CallAtlas.Graph

section Away

variable {α : Type}

/-- So many steps lead from a start to a vertex. -/
inductive Away (next : α → List α) (start : α → Prop) : Nat → α → Prop
  | here {v : α} (h : start v) : Away next start 0 v
  | step {n : Nat} {v w : α} (h : Away next start n v) (hw : w ∈ next v) :
      Away next start (n + 1) w

variable {next : α → List α} {start : α → Prop} {starts : List α} {n : Nat} {u v : α}

/-- A way with one more choice than steps. -/
theorem away_iff_way : Away next (· ∈ starts) n v ↔
    ∃ way, Way next starts way v ∧ way.length = n + 1 := by
  constructor
  · intro h
    induction h with
    | here hv =>
      obtain ⟨k, hk⟩ := List.mem_iff_getElem?.1 hv
      exact ⟨[k], .start hk, rfl⟩
    | step _ hw ih =>
      obtain ⟨way, hway, hlength⟩ := ih
      obtain ⟨k, hk⟩ := List.mem_iff_getElem?.1 hw
      exact ⟨way ++ [k], hway.step hk, by simp [hlength]⟩
  · rintro ⟨way, hway, hlength⟩
    induction hway generalizing n with
    | start hk =>
      obtain rfl : n = 0 := by simpa using hlength.symm
      exact .here (List.mem_of_getElem? hk)
    | @step way _ hway k _ hk ih =>
      have hpos := hway.length_pos
      obtain ⟨m, rfl⟩ : ∃ m, n = m + 1 := ⟨way.length - 1, by simp at hlength; omega⟩
      exact .step (ih (by simpa using hlength)) (List.mem_of_getElem? hk)

theorem exists_away_iff : (∃ n, Away next start n v) ↔ ∃ s, start s ∧ Leads next s v := by
  constructor
  · rintro ⟨n, h⟩
    induction h with
    | here hv => exact ⟨_, hv, .refl _⟩
    | step _ hw ih =>
      obtain ⟨s, hs, hlead⟩ := ih
      exact ⟨s, hs, hlead.trans (.edge hw)⟩
  · rintro ⟨s, hs, hlead⟩
    induction hlead with
    | refl => exact ⟨0, .here hs⟩
    | tail _ hw ih => exact ih.elim fun n h => ⟨n + 1, h.step hw⟩

section Order

variable [DecidableEq α] {order : List α} (h : order = fresh [] (starts ++ order.flatMap next))
include h

/-- What is delivered before a vertex is no further away. -/
theorem exists_away_le (hv : Away next (· ∈ starts) n v)
    (hbefore : order.idxOf u < order.idxOf v) : ∃ m ≤ n, Away next (· ∈ starts) m u := by
  obtain ⟨way, hway, hlength⟩ := away_iff_way.1 hv
  obtain ⟨way', hway', hlt⟩ := exists_way_lt h hway hbefore
  have hle := length_le_of_shortlex hlt
  have hpos := hway'.length_pos
  exact ⟨way'.length - 1, by omega, away_iff_way.2 ⟨way', hway', by omega⟩⟩

/-- What is no start is delivered after a vertex that leads to it. -/
theorem exists_before (hv : ∃ way, Way next starts way v) (hstart : v ∉ starts) :
    ∃ u ∈ order, v ∈ next u ∧ order.idxOf u < order.idxOf v := by
  obtain ⟨way, hleads, hfirst⟩ := exists_firstWay hv
  cases hleads with
  | start hk => exact absurd (List.mem_of_getElem? hk) hstart
  | @step way u hway k _ hk =>
    have hu := mem_order_of_way h hway
    refine ⟨u, hu, List.mem_of_getElem? hk, ?_⟩
    -- otherwise a way to the vertex would be no longer than that to `u`
    have hshort : ∀ other, Way next starts other v → way.length < other.length := by
      intro other hother
      rcases hfirst other hother with rfl | hlt
      · simp
      · have := length_le_of_shortlex hlt
        simp at this
        omega
    rcases Nat.lt_trichotomy (order.idxOf u) (order.idxOf v) with hlt | heq | hgt
    · exact hlt
    · obtain rfl := (List.idxOf_inj hu).1 heq
      exact absurd (hshort way hway) (Nat.lt_irrefl _)
    · obtain ⟨other, hother, hlt⟩ := exists_way_lt h hway hgt
      have := hshort other hother
      have := length_le_of_shortlex hlt
      omega

end Order

end Away

/-! ## Starts -/

/-- The end of a call by which a traversal comes in: that of the callee forward, and otherwise that
of the caller. -/
def Direction.entry : Direction → Edge → Int
  | .forward, e => e.target
  | _, e => e.source

/-- The same for edges between components. -/
def Direction.entryPart : Direction → Int × Int → Int
  | .forward, p => p.2
  | _, p => p.1

/-- Where a traversal starts if every node is entered: at the first one forward, and otherwise at
the last. -/
def Direction.fallback (n : Nat) : Direction → Int
  | .forward => 0
  | _ => n - 1

/-- Where a traversal starts (module doc). -/
inductive StartsAt (g : CallGraph) (d : Direction) : Option (List Int) → Int → Prop
  | given {given : List Int} {i : Int} (hi : i ∈ given) (hnode : i ∈ positions g.nodes.length) :
      StartsAt g d (some given) i
  | component {a i : Int} (hi : Holds g.components a i)
      (hnone : ∀ p ∈ g.componentEdges, d.entryPart p ≠ a) : StartsAt g d none i
  | node {i : Int} (hcomponents : g.components = []) (hi : i ∈ positions g.nodes.length)
      (hnone : ∀ e ∈ g.edges, d.entry e ≠ i) : StartsAt g d none i
  | fallback (hcomponents : g.components = []) (hnodes : g.nodes ≠ [])
      (hall : ∀ i ∈ positions g.nodes.length, ∃ e ∈ g.edges, d.entry e = i) :
      StartsAt g d none (d.fallback g.nodes.length)

/-- A graph has the components of its nodes, and the edges between them in some order. -/
def CallGraph.HasComponents (g : CallGraph) : Prop :=
  ∃ pairs, componentsOf g.nodes.length g.edges = .ok g.components ∧
    condense g.components g.edges = .ok pairs ∧ g.componentEdges.Perm pairs

theorem CallGraph.HasComponents.condensed {g : CallGraph} (h : g.HasComponents)
    (hedges : InRange g.nodes.length g.edges) :
    Condensed g.nodes.length g.edges g.components g.componentEdges := by
  obtain ⟨pairs, hcomponents, hpairs, hperm⟩ := h
  obtain ⟨components', pairs', hcomponents', hpairs', hcondensed⟩ := exists_condensed hedges
  obtain rfl := Except.ok.inj (hcomponents'.symm.trans hcomponents)
  obtain rfl := Except.ok.inj (hpairs'.symm.trans hpairs)
  exact hcondensed.perm hperm

/-- The nodes from which nothing comes, or the other one if there are none. -/
theorem mem_unentered {n : Nat} {back : Int → List Int} {other i : Int} :
    (i ∈ match (positions n).filter fun i => (back i).isEmpty with
      | [] => [other]
      | is => is) ↔
    i ∈ positions n ∧ back i = [] ∨ (∀ j ∈ positions n, back j ≠ []) ∧ i = other := by
  have hempty : (positions n).filter (fun i => (back i).isEmpty) = [] ↔
      ∀ j ∈ positions n, back j ≠ [] := by
    simp [List.filter_eq_nil_iff]
  split
  · next hnone =>
    have hall := hempty.1 hnone
    simp only [List.mem_singleton]
    constructor
    · exact fun hi => .inr ⟨hall, hi⟩
    · rintro (⟨hi, hnil⟩ | ⟨-, hi⟩)
      · exact absurd hnil (hall i hi)
      · exact hi
  · next hsome =>
    simp only [List.mem_filter, List.isEmpty_iff]
    constructor
    · exact .inl
    · rintro (hi | ⟨hall, -⟩)
      · exact hi
      · exact absurd (hempty.2 hall) hsome

theorem predecessors_eq_nil_iff {edges : List Edge} {i : Int} :
    predecessors edges i = [] ↔ ∀ e ∈ edges, e.target ≠ i := by
  simp [predecessors, List.filterMap_eq_nil_iff]

theorem successors_eq_nil_iff {edges : List Edge} {i : Int} :
    successors edges i = [] ↔ ∀ e ∈ edges, e.source ≠ i := by
  simp [successors, List.filterMap_eq_nil_iff]

section Starts

variable {g : CallGraph} {d : Direction} {i : Int}

/-- Without components a traversal starts at the nodes that nothing leads to. -/
theorem CallGraph.mem_starts_of_nil (hnone : g.components = []) : i ∈ g.starts d ↔
    i ∈ positions g.nodes.length ∧ (∀ e ∈ g.edges, d.entry e ≠ i) ∨
      (∀ j ∈ positions g.nodes.length, ∃ e ∈ g.edges, d.entry e = j) ∧
        i = d.fallback g.nodes.length := by
  have hback : ∃ back : Int → List Int, (∀ j, back j = [] ↔ ∀ e ∈ g.edges, d.entry e ≠ j) ∧
      (i ∈ g.starts d ↔ i ∈ positions g.nodes.length ∧ back i = [] ∨
        (∀ j ∈ positions g.nodes.length, back j ≠ []) ∧ i = d.fallback g.nodes.length) := by
    cases d with
    | forward =>
      refine ⟨predecessors g.edges, fun j => predecessors_eq_nil_iff, ?_⟩
      simp only [CallGraph.starts, hnone]
      exact mem_unentered
    | backward | both =>
      refine ⟨successors g.edges, fun j => successors_eq_nil_iff, ?_⟩
      simp only [CallGraph.starts, hnone]
      exact mem_unentered
  obtain ⟨back, hnil, hmem⟩ := hback
  simp only [hmem, ne_eq, hnil, not_forall, not_not, exists_prop]

/-- With its components a traversal starts at those that nothing leads to. -/
theorem Condensed.mem_starts (h : Condensed g.nodes.length g.edges g.components g.componentEdges)
    (hsome : g.components ≠ []) : i ∈ g.starts d ↔
      ∃ a, Holds g.components a i ∧ ∀ p ∈ g.componentEdges, d.entryPart p ≠ a := by
  rw [CallGraph.starts_eq hsome]
  cases d with
  | forward => exact h.mem_sourceMembers hsome
  | backward | both => exact h.mem_sinkMembers hsome

theorem mem_positions_of_startsAt {given : Option (List Int)}
    (hcomponents : g.components = [] ∨
      Condensed g.nodes.length g.edges g.components g.componentEdges)
    (h : StartsAt g d given i) : i ∈ positions g.nodes.length := by
  cases h with
  | given _ hnode => exact hnode
  | @component a _ hi _ =>
    rcases hcomponents with hnone | hcondensed
    · obtain ⟨m, c, -, hm, -⟩ := hi
      rw [hnone] at hm
      cases hm
    · exact hcondensed.mem_positions_of_holds hi
  | node _ hi _ => exact hi
  | fallback _ hnodes _ =>
    have hpos := List.length_pos_iff.2 hnodes
    rw [mem_positions]
    cases d <;> simp only [Direction.fallback] <;> omega

/-- A traversal of a graph with nodes starts where it should. -/
theorem mem_startList_iff (hnodes : g.nodes ≠ []) (hcomponents : g.components = [] ∨
      Condensed g.nodes.length g.edges g.components g.componentEdges)
    {given : Option (List Int)} : i ∈ g.startList d given ↔ StartsAt g d given i := by
  cases given with
  | some given =>
    have hmem : i ∈ g.startList d (some given) ↔ i ∈ given ∧ i ∈ positions g.nodes.length := by
      simp [CallGraph.startList, mem_fresh, mem_positions]
    rw [hmem]
    constructor
    · exact fun ⟨hi, hnode⟩ => .given hi hnode
    · intro h
      cases h with
      | given hi hnode => exact ⟨hi, hnode⟩
  | none =>
    have hmem : i ∈ g.startList d none ↔ i ∈ g.starts d := by
      simp [CallGraph.startList, mem_fresh]
    rw [hmem]
    by_cases hnone : g.components = []
    · rw [CallGraph.mem_starts_of_nil hnone]
      constructor
      · rintro (⟨hi, hfree⟩ | ⟨hall, rfl⟩)
        · exact .node hnone hi hfree
        · exact .fallback hnone hnodes hall
      · intro h
        cases h with
        | @component a _ hi _ =>
          obtain ⟨m, c, -, hm, -⟩ := hi
          rw [hnone] at hm
          cases hm
        | node _ hi hfree => exact .inl ⟨hi, hfree⟩
        | fallback _ _ hall => exact .inr ⟨hall, rfl⟩
    · have hcondensed := hcomponents.resolve_left hnone
      rw [hcondensed.mem_starts hnone]
      constructor
      · exact fun ⟨a, hi, hfree⟩ => .component hi hfree
      · intro h
        cases h with
        | component hi hfree => exact ⟨_, hi, hfree⟩
        | node hnil _ _ => exact absurd hnil hnone
        | fallback hnil _ _ => exact absurd hnil hnone

/-- Every node is led to from a start, also where calls are followed both ways. -/
theorem Condensed.exists_startsAt
    (h : Condensed g.nodes.length g.edges g.components g.componentEdges)
    (hedges : InRange g.nodes.length g.edges) (hsome : g.components ≠ [])
    (hi : i ∈ positions g.nodes.length) :
    ∃ s, StartsAt g d none s ∧ Leads (onward g.edges d) s i := by
  have hstart : ∀ {d s}, s ∈ g.starts d → StartsAt g d none s := by
    intro d s hs
    obtain ⟨a, ha, hfree⟩ := (h.mem_starts hsome).1 hs
    exact .component ha hfree
  by_cases hd : d = .both
  · subst hd
    obtain ⟨s, hs, hlead⟩ := h.exists_start hedges hsome (d := .backward) (by decide) hi
    have hsame : g.starts .both = g.starts .backward := by
      rw [CallGraph.starts_eq hsome, CallGraph.starts_eq hsome]
      rfl
    refine ⟨s, hstart (hsame ▸ hs), Relation.ReflTransGen.mono (fun a b hb => ?_) _ _ hlead⟩
    exact mem_onward_both.2 (.inr hb)
  · obtain ⟨s, hs, hlead⟩ := h.exists_start hedges hsome hd hi
    exact ⟨s, hstart hs, hlead⟩

end Starts

/-! ## Traversals -/

/-- The positions of a graph in the order of a traversal: first those that the starts lead to, by
their distance and each behind one that leads to it, and then the rest. -/
structure OutwardOrder (g : CallGraph) (d : Direction) (given : Option (List Int))
    (reached rest : List Int) (distance : Int → Nat) : Prop where
  perm : (reached ++ rest).Perm (positions g.nodes.length)
  reached_iff : ∀ i, i ∈ reached ↔ ∃ s, StartsAt g d given s ∧ Leads (onward g.edges d) s i
  least : ∀ i ∈ reached, IsLeast {n | Away (onward g.edges d) (StartsAt g d given) n i} (distance i)
  sorted : reached.Pairwise fun i j => distance i ≤ distance j
  after : ∀ i ∈ reached, ¬ StartsAt g d given i →
    ∃ j ∈ reached, i ∈ onward g.edges d j ∧ reached.idxOf j < reached.idxOf i

/-- What a queue delivers from the starts of a traversal, with the rest behind it, is an outward
order. -/
theorem exists_outwardOrder {g : CallGraph} {d : Direction} {given : Option (List Int)}
    {starts reached : List Int} (hedges : InRange g.nodes.length g.edges)
    (hstarts : ∀ i, i ∈ starts ↔ StartsAt g d given i)
    (hrange : ∀ i ∈ starts, i ∈ positions g.nodes.length)
    (hreached : reached = fresh [] (starts ++ reached.flatMap (onward g.edges d)))
    (hways : ∀ i ∈ reached, ∃ way, Way (onward g.edges d) starts way i) :
    ∃ distance, OutwardOrder g d given reached
      ((positions g.nodes.length).filter fun i => decide (i ∉ reached)) distance := by
  have hstart : (· ∈ starts) = StartsAt g d given := funext fun i => propext (hstarts i)
  have haway : ∀ i ∈ reached, ∃ n, Away (onward g.edges d) (StartsAt g d given) n i := by
    intro i hi
    obtain ⟨way, hway⟩ := hways i hi
    have hpos := hway.length_pos
    exact ⟨way.length - 1, hstart ▸ away_iff_way.2 ⟨way, hway, by omega⟩⟩
  have hmem : ∀ i ∈ reached, i ∈ positions g.nodes.length := by
    intro i hi
    obtain ⟨way, hway⟩ := hways i hi
    exact hway.mem_of_closed (mem_positions_of_onward hedges d) hrange
  have hleast : ∀ i, ∃ n, i ∈ reached →
      IsLeast {n | Away (onward g.edges d) (StartsAt g d given) n i} n := by
    classical
    intro i
    by_cases hi : i ∈ reached
    · exact ⟨Nat.find (haway i hi), fun _ => ⟨Nat.find_spec (haway i hi), fun n hn => Nat.find_le hn⟩⟩
    · exact ⟨0, fun h => absurd h hi⟩
  choose distance hdistance using hleast
  have hnodup := nodup_order hreached
  refine ⟨distance, ?_, fun i => ?_, hdistance, ?_, fun i hi hno => ?_⟩
  · refine (List.perm_ext_iff_of_nodup ?_ (nodup_positions _)).2 fun i => ?_
    · refine List.nodup_append.2 ⟨hnodup, (nodup_positions _).filter _, ?_⟩
      rintro i hi j hj rfl
      simp [hi] at hj
    · by_cases hi : i ∈ reached
      · simp [hi, hmem i hi]
      · simp [hi]
  · constructor
    · exact fun hi => exists_away_iff.1 (haway i hi)
    · rintro ⟨s, hs, hlead⟩
      obtain ⟨way, hway⟩ := exists_way_of_leads ((hstarts s).2 hs) hlead
      exact mem_order_of_way hreached hway
  · -- a distance is taken on, and what comes earlier is no further away
    refine List.pairwise_iff_getElem.2 fun m n hm hn hlt => ?_
    have hbefore : reached.idxOf reached[m] < reached.idxOf reached[n] := by
      rwa [hnodup.idxOf_getElem, hnodup.idxOf_getElem]
    have hthere := (hdistance reached[n] (List.getElem_mem hn)).1
    obtain ⟨k, hle, hk⟩ := exists_away_le hreached (hstart ▸ hthere) hbefore
    exact Nat.le_trans ((hdistance reached[m] (List.getElem_mem hm)).2 (hstart ▸ hk)) hle
  · exact exists_before hreached (hways i hi) fun h => hno ((hstarts i).1 h)

/-- Let the edges be `InRange`, and the graph be without components or have those of its nodes
(`HasComponents`). Then `traverse` lists every node once, in an `OutwardOrder` from where it
`StartsAt`: first the nodes that the starts lead to, no node before one that is nearer to the
starts, and each that is no start after a node that leads to it, then the others. Its queue
(`outward`) comes to its end within as many rounds as there are nodes. If the starts are those
chosen by components, there are no others. -/
theorem traverse_outward (g : CallGraph) (hedges : InRange g.nodes.length g.edges)
    (hcomponents : g.components = [] ∨ g.HasComponents) (d : Direction)
    (given : Option (List Int)) :
    ∃ listed reached rest distance, g.traverse d given = .ok listed ∧
      Picks g.nodes (reached ++ rest) listed ∧
      OutwardOrder g d given reached rest distance ∧
      (g.nodes ≠ [] → ∀ bound > g.nodes.length, outward (onward g.edges d) bound
        (g.startList d given) (g.startList d given) = reached) ∧
      (given = none → g.components ≠ [] → rest = []) := by
  have hcondensed := hcomponents.imp_right fun h => h.condensed hedges
  have hrange : ∀ i, StartsAt g d given i → i ∈ positions g.nodes.length := fun i =>
    mem_positions_of_startsAt hcondensed
  by_cases hnodes : g.nodes = []
  · have hpositions : positions g.nodes.length = [] := by rw [hnodes]; rfl
    rw [hpositions] at hrange
    refine ⟨[], [], [], fun _ => 0, ?_, rfl, ⟨?_, ?_, ?_, .nil, ?_⟩, fun h => absurd hnodes h,
      fun _ _ => rfl⟩
    · rw [CallGraph.traverse, hnodes]
      rfl
    · rw [hpositions]
      rfl
    · intro i
      constructor
      · intro h
        cases h
      · rintro ⟨s, hs, -⟩
        exact absurd (hrange s hs) List.not_mem_nil
    · exact fun _ h => absurd h List.not_mem_nil
    · exact fun _ h => absurd h List.not_mem_nil
  obtain ⟨starts, hgiven⟩ : ∃ starts, g.startList d given = fresh [] starts := by
    cases given <;> exact ⟨_, rfl⟩
  have hstarts : ∀ i, i ∈ starts ↔ StartsAt g d given i := fun i => by
    rw [← mem_startList_iff hnodes hcondensed, hgiven, mem_fresh]
    simp
  have hin : ∀ i ∈ starts, i ∈ positions g.nodes.length := fun i hi => hrange i ((hstarts i).1 hi)
  obtain ⟨reached, htraversal, hreached, hways, hend⟩ := g.exists_reached hedges hgiven hin
  obtain ⟨distance, horder⟩ := exists_outwardOrder hedges hstarts hin hreached hways
  have hall : ∀ i ∈ g.traversal d given, i ∈ positions g.nodes.length := fun i hi =>
    horder.perm.mem_iff.1 (htraversal ▸ hi)
  obtain ⟨listed, hlisted, hpicks⟩ := itemsAt_picks hall
  refine ⟨listed, reached, _, distance, ?_, htraversal ▸ hpicks, horder, fun _ => hend, ?_⟩
  · rw [CallGraph.traverse, if_neg (by simpa using hnodes), hlisted]
  · rintro rfl hsome
    refine List.filter_eq_nil_iff.2 fun i hi => ?_
    obtain ⟨s, hs, hlead⟩ :=
      (hcondensed.resolve_left hsome).exists_startsAt (d := d) hedges hsome hi
    simpa using (horder.reached_iff i).2 ⟨s, hs, hlead⟩

/-- Five functions in two circles, with their components. -/
def circles : CallGraph where
  nodes := [0, 1, 2, 3, 4].map fun line => ⟨.here, line, 0, line, 0, 0, 0⟩
  owners := [.function "a", .function "b", .function "c", .function "d", .function "e"]
  edges := twoCircles
  components := [[3, 4], [2, 1, 0]]
  componentEdges := [(1, 0)]
  unresolved := []
  stats := none

theorem hasComponents_circles : circles.HasComponents := by
  have hcross : crossings [[3, 4], [2, 1, 0]] twoCircles = .ok [(1, 0), (1, 0)] := rfl
  exact ⟨[(1, 0)], rfl, condense_eq hcross (by decide) (by decide), .refl _⟩

/-- Both ways all functions are reached from the circle that calls no other, nearer ones first. Along
the calls from the fourth function, which is the only new node among the given positions, the first
circle is not reached and comes last. -/
theorem traverse_outward_circles :
    InRange circles.nodes.length circles.edges ∧ circles.HasComponents ∧
    circles.traverse .both none =
      .ok ([3, 4, 0, 2, 1].map fun line => ⟨.here, line, 0, line, 0, 0, 0⟩) ∧
    (∃ distance, OutwardOrder circles .both none [3, 4, 0, 2, 1] [] distance) ∧
    circles.traverse .forward (some [9, 3, -1, 3]) =
      .ok ([3, 4, 0, 1, 2].map fun line => ⟨.here, line, 0, line, 0, 0, 0⟩) ∧
    ∃ rest distance, OutwardOrder circles .forward (some [9, 3, -1, 3]) [3, 4] rest distance := by
  have hedges : InRange circles.nodes.length circles.edges := by decide
  refine ⟨hedges, hasComponents_circles, by decide, ?_, by decide, ?_⟩
  · obtain ⟨listed, reached, rest, distance, -, -, horder, hend, hall⟩ :=
      traverse_outward circles hedges (.inr hasComponents_circles) .both none
    obtain rfl : [3, 4, 0, 2, 1] = reached := hend (by decide) 6 (by decide)
    obtain rfl := hall rfl (by decide)
    exact ⟨distance, horder⟩
  · obtain ⟨listed, reached, rest, distance, -, -, horder, hend, -⟩ :=
      traverse_outward circles hedges (.inr hasComponents_circles) .forward (some [9, 3, -1, 3])
    obtain rfl : [3, 4] = reached := hend (by decide) 6 (by decide)
    exact ⟨rest, distance, horder⟩

end CallAtlas.Graph
