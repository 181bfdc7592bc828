import CallAtlas.Proofs.Graph.Outward
import CallAtlas.Proofs.Graph.Parts

/-! # Breadth-first order of a call graph

A traversal follows the edges of a graph forward or backward, from the components that the direction
does not enter (`mem_starts_iff`). As the components are numbered along the edges, each node is led
to from one of them (`exists_start`), so a traversal lists every node, in the order of the first
ways to it (`CallGraph.exists_ordered`). -/

namespace CallAtlas.Graph

/-! ## Directions -/

theorem onward_eq {d : Direction} (hd : d ≠ .both) (edges : List Edge) :
    onward edges d = successors (d.apply edges) := by
  cases d with
  | forward => rfl
  | backward => exact funext fun i => (successors_flip edges i).symm
  | both => exact absurd rfl hd

theorem leads_onward {d : Direction} (hd : d ≠ .both) (edges : List Edge) :
    Leads (onward edges d) = Reaches (d.apply edges) := by
  rw [onward_eq hd, reaches_eq_leads]

theorem reaches_flip {edges : List Edge} {i j : Int} :
    Reaches (edges.map Edge.flip) i j ↔ Reaches edges j i := by
  have hjoins : Joins (edges.map Edge.flip) = Function.swap (Joins edges) := by
    funext i j
    refine propext ⟨?_, ?_⟩
    · rintro ⟨e, he, rfl, rfl⟩
      obtain ⟨e', he', rfl⟩ := List.mem_map.1 he
      exact ⟨e', he', rfl, rfl⟩
    · rintro ⟨e, he, rfl, rfl⟩
      exact ⟨e.flip, List.mem_map_of_mem he, rfl, rfl⟩
  rw [Reaches, hjoins]
  exact Relation.reflTransGen_swap

/-- The number of a component as a direction meets it: along the edges numbers get smaller. -/
def Direction.stage (count : Nat) (a : Int) : Direction → Nat
  | .forward => count - a.toNat
  | _ => a.toNat

namespace Condensed

variable {n : Nat} {edges : List Edge} {components : List (List Int)} {pairs : List (Int × Int)}
  {d : Direction} {a b i j : Int}

theorem components_ne_nil (h : Condensed n edges components pairs) (hn : 0 < n) :
    components ≠ [] := by
  obtain ⟨a, m, c, -, hm, -⟩ := h.parts.exists_holds (i := 0) (mem_positions.2 (by omega))
  exact List.ne_nil_of_mem (List.mem_of_getElem? hm)

theorem mem_positions_of_holds (h : Condensed n edges components pairs)
    (ha : Holds components a i) : i ∈ positions n := by
  obtain ⟨m, c, -, hm, hic⟩ := ha
  exact (h.parts.mem_iff i).1 (List.mem_flatten_of_mem (List.mem_of_getElem? hm) hic)

theorem reaches_apply (h : Condensed n edges components pairs) (hd : d ≠ .both)
    (hi : Holds components a i) (hj : Holds components a j) : Reaches (d.apply edges) i j := by
  cases d with
  | forward => exact h.reaches hi hj
  | backward => exact reaches_flip.2 (h.reaches hj hi)
  | both => exact absurd rfl hd

/-- Along a direction, stages get larger from component to component. -/
theorem stage_lt (h : Condensed n edges components pairs) (hd : d ≠ .both)
    (ha : Holds components a i) (hb : Holds components b j) (hij : Reaches (d.apply edges) i j)
    (hne : a ≠ b) : d.stage components.length a < d.stage components.length b := by
  have hrange : ∀ {a i : Int}, Holds components a i → 0 ≤ a ∧ a < components.length := by
    rintro a i ⟨m, c, rfl, hm, -⟩
    have := (List.getElem?_eq_some_iff.1 hm).1
    omega
  have := hrange ha
  have := hrange hb
  cases d with
  | forward =>
    have := h.parts.number_lt ha hb hij hne
    simp only [Direction.stage]
    omega
  | backward =>
    have := h.parts.number_lt hb ha (reaches_flip.1 hij) hne.symm
    simp only [Direction.stage]
    omega
  | both => exact absurd rfl hd

end Condensed

/-! ## Starts -/

/-- The members of the components that are no such end of an edge between components, if there is
one. -/
theorem mem_untouched {components : List (List Int)} {pairs : List (Int × Int)}
    {side : Int × Int → Int} {other : List Int} {i : Int}
    (hsome : ∃ m < components.length, ∀ e ∈ pairs, side e ≠ Int.ofNat m) :
    (i ∈ match components.zipIdx.filter fun c => pairs.all fun e => side e != Int.ofNat c.2 with
      | [] => other
      | cs => cs.flatMap Prod.fst) ↔
    ∃ a, Holds components a i ∧ ∀ e ∈ pairs, side e ≠ a := by
  split
  · next hnone =>
    obtain ⟨m, hm, hp⟩ := hsome
    have := List.filter_eq_nil_iff.1 hnone (components[m], m)
      (List.mk_mem_zipIdx_iff_getElem?.2 (List.getElem?_eq_getElem hm))
    exact absurd (by simpa using hp) this
  · simp only [List.mem_flatMap, List.mem_filter, Prod.exists, List.mk_mem_zipIdx_iff_getElem?,
      List.all_eq_true, bne_iff_ne]
    constructor
    · rintro ⟨c, m, ⟨hm, hp⟩, hi⟩
      exact ⟨m, ⟨m, c, rfl, hm, hi⟩, hp⟩
    · rintro ⟨_, ⟨m, c, rfl, hm, hi⟩, hp⟩
      exact ⟨c, m, ⟨hm, hp⟩, hi⟩

theorem CallGraph.starts_eq {g : CallGraph} (hsome : g.components ≠ []) (d : Direction) :
    g.starts d = if d = .forward then sourceMembers g.components g.componentEdges
      else sinkMembers g.components g.componentEdges := by
  unfold CallGraph.starts
  split <;> simp_all

namespace Condensed

section Members

variable {n : Nat} {edges : List Edge} {components : List (List Int)} {pairs : List (Int × Int)}
  {a i : Int}

theorem mem_sourceMembers (h : Condensed n edges components pairs) (hsome : components ≠ []) :
    i ∈ sourceMembers components pairs ↔ ∃ a, Holds components a i ∧ ∀ e ∈ pairs, e.2 ≠ a := by
  -- edges between components go to smaller numbers, so none enters the last component
  have hpos := List.length_pos_iff.2 hsome
  refine mem_untouched ⟨components.length - 1, by omega, fun e he hlast => ?_⟩
  obtain ⟨-, _, -, ⟨m, c, hm, hc, -⟩, -⟩ := (h.mem_iff e.1 e.2).1 he
  have := h.lt he
  have := (List.getElem?_eq_some_iff.1 hc).1
  rw [Int.ofNat_eq_natCast] at hlast
  omega

theorem mem_sinkMembers (h : Condensed n edges components pairs) (hsome : components ≠ []) :
    i ∈ sinkMembers components pairs ↔ ∃ a, Holds components a i ∧ ∀ e ∈ pairs, e.1 ≠ a := by
  -- and none leaves the first
  refine mem_untouched ⟨0, List.length_pos_iff.2 hsome, fun e he hfirst => ?_⟩
  obtain ⟨-, _, -, -, m, c, hm, -⟩ := (h.mem_iff e.1 e.2).1 he
  have := h.lt he
  rw [Int.ofNat_eq_natCast] at hfirst
  omega

theorem entered_iff (h : Condensed n edges components pairs) (hedges : InRange n edges) :
    (∀ e ∈ pairs, e.2 ≠ a) ↔
      ∀ e ∈ edges, Holds components a e.target → Holds components a e.source := by
  constructor
  · intro hnone e he ht
    obtain ⟨b, hb⟩ := h.parts.exists_holds (mem_positions.2 (hedges e he).1)
    obtain rfl | hba := h.joins ⟨e, he, rfl, rfl⟩ hb ht
    · exact hb
    · exact absurd rfl (hnone _ hba)
  · rintro hstays ⟨b, a⟩ hba rfl
    obtain ⟨hne, e, he, hs, ht⟩ := (h.mem_iff b a).1 hba
    exact hne (h.holds_unique hs (hstays e he ht))

theorem left_iff (h : Condensed n edges components pairs) (hedges : InRange n edges) :
    (∀ e ∈ pairs, e.1 ≠ a) ↔
      ∀ e ∈ edges, Holds components a e.source → Holds components a e.target := by
  constructor
  · intro hnone e he hs
    obtain ⟨b, hb⟩ := h.parts.exists_holds (mem_positions.2 (hedges e he).2)
    obtain rfl | hab := h.joins ⟨e, he, rfl, rfl⟩ hs hb
    · exact hb
    · exact absurd rfl (hnone _ hab)
  · rintro hstays ⟨a, b⟩ hab rfl
    obtain ⟨hne, e, he, hs, ht⟩ := (h.mem_iff a b).1 hab
    exact hne (h.holds_unique (hstays e he hs) ht)

end Members

variable {g : CallGraph} {d : Direction} {i : Int}

/-- A traversal starts at the components that its direction does not enter. -/
theorem mem_starts_iff (h : Condensed g.nodes.length g.edges g.components g.componentEdges)
    (hedges : InRange g.nodes.length g.edges) (hsome : g.components ≠ []) (hd : d ≠ .both) :
    i ∈ g.starts d ↔ ∃ a, Holds g.components a i ∧
      ∀ e ∈ d.apply g.edges, Holds g.components a e.target → Holds g.components a e.source := by
  cases d with
  | forward =>
    rw [CallGraph.starts_eq hsome, if_pos rfl, h.mem_sourceMembers hsome]
    simp only [h.entered_iff hedges, Direction.apply]
  | backward =>
    rw [CallGraph.starts_eq hsome, if_neg (by decide), h.mem_sinkMembers hsome]
    simp only [h.left_iff hedges, Direction.apply, List.forall_mem_map, Edge.flip]
  | both => exact absurd rfl hd

/-- A traversal starts at the nodes that lead back to whatever leads to them. -/
theorem mem_starts_iff_leads (h : Condensed g.nodes.length g.edges g.components g.componentEdges)
    (hedges : InRange g.nodes.length g.edges) (hsome : g.components ≠ []) (hd : d ≠ .both) :
    i ∈ g.starts d ↔ i ∈ positions g.nodes.length ∧
      ∀ j, Leads (onward g.edges d) j i → Leads (onward g.edges d) i j := by
  rw [h.mem_starts_iff hedges hsome hd, leads_onward hd]
  constructor
  · rintro ⟨a, ha, hstays⟩
    refine ⟨h.mem_positions_of_holds ha, fun j hj => ?_⟩
    -- whatever leads to the component lies in it
    have hja : Holds g.components a j := by
      induction hj using Relation.ReflTransGen.head_induction_on with
      | refl => exact ha
      | head hstep _ ih =>
        obtain ⟨e, he, rfl, rfl⟩ := hstep
        exact hstays e he ih
    exact h.reaches_apply hd ha hja
  · rintro ⟨hi, hback⟩
    obtain ⟨a, ha⟩ := h.parts.exists_holds hi
    refine ⟨a, ha, fun e he ht => ?_⟩
    obtain ⟨b, hb⟩ := h.parts.exists_holds (mem_positions.2 (inRange_apply hedges d e he).1)
    have hin : Reaches (d.apply g.edges) e.source i :=
      .head ⟨e, he, rfl, rfl⟩ (h.reaches_apply hd ht ha)
    by_cases hab : a = b
    · exact hab ▸ hb
    · have := h.stage_lt hd hb ha hin (Ne.symm hab)
      have := h.stage_lt hd ha hb (hback _ hin) hab
      omega

/-- Every node is led to from a start. -/
theorem exists_start (h : Condensed g.nodes.length g.edges g.components g.componentEdges)
    (hedges : InRange g.nodes.length g.edges) (hsome : g.components ≠ []) (hd : d ≠ .both)
    (hi : i ∈ positions g.nodes.length) :
    ∃ s ∈ g.starts d, Leads (onward g.edges d) s i := by
  obtain ⟨a, ha⟩ := h.parts.exists_holds hi
  -- a component that is entered is entered from one of a smaller stage
  induction hstage : d.stage g.components.length a using Nat.strongRecOn generalizing a i with
  | ind stage ih =>
    subst hstage
    by_cases hstays : ∀ e ∈ d.apply g.edges,
        Holds g.components a e.target → Holds g.components a e.source
    · exact ⟨i, (h.mem_starts_iff hedges hsome hd).2 ⟨a, ha, hstays⟩, .refl i⟩
    · push Not at hstays
      obtain ⟨e, he, ht, hs⟩ := hstays
      have hsource := mem_positions.2 (inRange_apply hedges d e he).1
      obtain ⟨b, hb⟩ := h.parts.exists_holds hsource
      have hba : b ≠ a := fun hba => hs (hba ▸ hb)
      have hlt := h.stage_lt hd hb ht (.single ⟨e, he, rfl, rfl⟩) hba
      obtain ⟨s, hs, hlead⟩ := ih _ hlt hsource b hb rfl
      rw [leads_onward hd] at hlead ⊢
      exact ⟨s, hs, (hlead.tail ⟨e, he, rfl, rfl⟩).trans (h.reaches_apply hd ht ha)⟩

end Condensed

/-! ## Traversals -/

namespace Picks

variable {α : Type} {items as : List α} {is : List Int}

theorem perm (h : Picks items is as) (his : is.Perm (positions items.length)) :
    as.Perm items := by
  have hall : (positions items.length).map (fun i => items[i.toNat]?) = items.map some := by
    rw [positions, List.map_map]
    refine List.ext_getElem? fun k => ?_
    by_cases hk : k < items.length
    · simp [hk]
    · simp [hk]
  rw [← List.map_perm_map_iff (Option.some_injective α), h, ← hall]
  exact his.map _

theorem idxOf_eq [DecidableEq α] (h : Picks items is as) (has : as.Nodup) {i : Int} {a : α}
    (hi : i ∈ is) (ha : items[i.toNat]? = some a) : as.idxOf a = is.idxOf i := by
  have hlt := List.idxOf_lt_length_of_mem hi
  have hget := congrArg (·[is.idxOf i]?) h
  simp only [List.getElem?_map, List.getElem?_eq_getElem hlt, List.getElem_idxOf, Option.map_some,
    ha, Option.map_eq_some_iff, Option.some.injEq, exists_eq_right] at hget
  obtain ⟨hlt', rfl⟩ := List.getElem?_eq_some_iff.1 hget
  exact has.idxOf_getElem _ hlt'

end Picks

theorem mem_onward_both {edges : List Edge} {i j : Int} : j ∈ onward edges .both i ↔
    j ∈ onward edges .forward i ∨ j ∈ onward edges .backward i := by
  simp only [onward, neighbours, successors, predecessors, List.mem_flatMap, List.mem_append,
    List.mem_filterMap, List.mem_ite_nil_right, List.mem_singleton, Option.ite_none_right_eq_some,
    Option.some.injEq, ← exists_or, ← and_or_left, eq_comm (a := j)]

theorem mem_positions_of_onward {n : Nat} {edges : List Edge} (h : InRange n edges)
    (d : Direction) : ∀ i ∈ positions n, ∀ j ∈ onward edges d i, j ∈ positions n := by
  have hone : ∀ d, d ≠ .both → ∀ i ∈ positions n, ∀ j ∈ onward edges d i, j ∈ positions n :=
    fun d hd => by
      rw [onward_eq hd]
      exact (closed_of_inRange (inRange_apply h d)).2
  cases d with
  | forward => exact hone .forward (by decide)
  | backward => exact hone .backward (by decide)
  | both =>
    intro i hi j hj
    rcases mem_onward_both.1 hj with hj | hj
    · exact hone .forward (by decide) i hi j hj
    · exact hone .backward (by decide) i hi j hj

/-- A traversal starts with what it reaches, each position where it is first met, and its queue comes
to its end within as many rounds as there are nodes. -/
theorem CallGraph.exists_reached {g : CallGraph} (hedges : InRange g.nodes.length g.edges)
    {d : Direction} {given : Option (List Int)} {starts : List Int}
    (hgiven : g.startList d given = fresh [] starts)
    (hstarts : ∀ i ∈ starts, i ∈ positions g.nodes.length) :
    ∃ reached, g.traversal d given = reached ++
        (positions g.nodes.length).filter (fun i => decide (i ∉ reached)) ∧
      reached = fresh [] (starts ++ reached.flatMap (onward g.edges d)) ∧
      (∀ i ∈ reached, ∃ way, Way (onward g.edges d) starts way i) ∧
      ∀ bound > g.nodes.length, outward (onward g.edges d) bound (g.startList d given)
        (g.startList d given) = reached := by
  have hlength : (positions g.nodes.length).length = g.nodes.length := by simp [positions]
  have hbound : (positions g.nodes.length).length <
      g.nodes.length + 2 * g.edges.length + (fresh [] starts).length + 1 := by omega
  have hqueued : Queued (positions g.nodes.length) [] (fresh [] starts) :=
    ⟨nodup_append_fresh List.nodup_nil starts, fun i hi => hstarts i (mem_fresh.1 hi).1⟩
  have hclosed := mem_positions_of_onward hedges d
  refine ⟨_, rfl, ?_, fun i hi => exists_way_of_mem_outward (fun j hj => ?_) hi, fun bound hn => ?_⟩
  · rw [hgiven, fresh_append]
    exact outward_eq hclosed hqueued hbound
  · rw [hgiven] at hj
    exact exists_way_of_mem (mem_fresh.1 hj).1
  · rw [hgiven]
    exact outward_of_lt hclosed hqueued (by rw [hlength]; exact hn) hbound

/-- The nodes of a graph are listed in the order of the first ways to them, from the nodes that lead
back to whatever leads to them. -/
structure Ordered (g : CallGraph) (d : Direction) (listed : List Location)
    (way : Int → List Nat) : Prop where
  perm : listed.Perm g.nodes
  starts : g.nodes ≠ [] → ∀ i, i ∈ g.starts d ↔ i ∈ positions g.nodes.length ∧
    ∀ j, Leads (onward g.edges d) j i → Leads (onward g.edges d) i j
  first : ∀ i ∈ positions g.nodes.length, FirstWay (onward g.edges d) (g.starts d) (way i) i
  before : ∀ i ∈ positions g.nodes.length, ∀ j ∈ positions g.nodes.length, ∀ l l',
    g.nodes[i.toNat]? = some l → g.nodes[j.toNat]? = some l' →
      (listed.idxOf l < listed.idxOf l' ↔ List.Shortlex (· < ·) (way i) (way j))

/-- A traversal of a graph with its components lists all nodes by their first ways. -/
theorem CallGraph.exists_ordered {g : CallGraph} (hnodes : g.nodes.Nodup)
    (hedges : InRange g.nodes.length g.edges)
    (h : Condensed g.nodes.length g.edges g.components g.componentEdges) {d : Direction}
    (hd : d ≠ .both) :
    ∃ listed way, g.traverse d none = .ok listed ∧ Ordered g d listed way := by
  by_cases hempty : g.nodes = []
  · refine ⟨[], fun _ => [], by rw [traverse, hempty]; rfl, by rw [hempty], fun h => absurd hempty h,
      ?_, ?_⟩ <;> rw [hempty] <;> simp [positions]
  have hsome := h.components_ne_nil (List.length_pos_iff.2 hempty)
  have hstarts := fun i => h.mem_starts_iff_leads (i := i) hedges hsome hd
  obtain ⟨order, htraversal, horder, hreached, -⟩ :=
    @CallGraph.exists_reached g hedges d none _ rfl fun i hi => ((hstarts i).1 hi).1
  have hways : ∀ i ∈ positions g.nodes.length,
      ∃ way, Way (onward g.edges d) (g.starts d) way i := fun i hi => by
    obtain ⟨s, hs, hlead⟩ := h.exists_start hedges hsome hd hi
    exact exists_way_of_leads hs hlead
  have hmem : ∀ i, i ∈ order ↔ i ∈ positions g.nodes.length := by
    refine fun i => ⟨fun hi => ?_, fun hi => ?_⟩
    · obtain ⟨way, hway⟩ := hreached i hi
      exact hway.mem_of_closed (mem_positions_of_onward hedges d) fun i hi => ((hstarts i).1 hi).1
    · obtain ⟨way, hway⟩ := hways i hi
      exact mem_order_of_way horder hway
  have hall : g.traversal d none = order := by
    rw [htraversal, List.filter_eq_nil_iff.2, List.append_nil]
    intro i hi
    simpa using (hmem i).2 hi
  obtain ⟨listed, hlisted, hpicks⟩ := itemsAt_picks fun i hi => (hmem i).1 hi
  have hnodup := hpicks.nodup hnodes (nodup_order horder) fun i hi => (hmem i).1 hi
  have hfirst : ∀ i, ∃ way, i ∈ positions g.nodes.length →
      FirstWay (onward g.edges d) (g.starts d) way i := fun i => by
    by_cases hi : i ∈ positions g.nodes.length
    · exact (exists_firstWay (hways i hi)).imp fun _ hway _ => hway
    · exact ⟨[], fun h => absurd h hi⟩
  choose way hway using hfirst
  refine ⟨listed, way, ?_, ?_, fun _ => hstarts, hway, ?_⟩
  · rw [traverse, if_neg (by simpa using hempty), hall, hlisted]
  · refine hpicks.perm ((List.perm_ext_iff_of_nodup ?_ (nodup_positions _)).2 hmem)
    exact nodup_order horder
  · intro i hi j hj l l' hl hl'
    rw [hpicks.idxOf_eq hnodup ((hmem i).2 hi) hl, hpicks.idxOf_eq hnodup ((hmem j).2 hj) hl']
    exact before_iff horder (hway i hi) (hway j hj)

/-- The call graph of an index is built with its components, and a traversal either way lists all its
nodes by their first ways. -/
theorem build_ordered (ix : Index) (expand : Bool) (direction : Direction) :
    ∃ g, build ix ⟨expand, direction, [], true⟩ = .ok g ∧ InRange g.nodes.length g.edges ∧
      ∀ d, d ≠ .both → ∃ listed way, g.traverse d none = .ok listed ∧ Ordered g d listed way := by
  have hedges := inRange_wholePart ix expand direction
  obtain ⟨found, hfound, -⟩ := exists_found hedges true
  have hg := build_eq ix expand direction true
  rw [hfound] at hg
  refine ⟨_, hg, hedges, fun d hd => CallGraph.exists_ordered ?_ hedges ?_ hd⟩
  · exact nodup_wholePart ix expand direction
  · exact (Part.condensed hedges hfound).2.2

end CallAtlas.Graph
