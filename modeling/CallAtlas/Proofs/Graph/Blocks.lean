import CallAtlas.Proofs.Graph.Traversal
import Mathlib.Data.Nat.Find

/-! # Components in a breadth-first order

A traversal lists nodes by the first ways to them and does not look at components once it has
started. A component stands in consecutive places (`Consecutive`) iff nothing outside of it has a
first way between those of two of its members (`Ordered.consecutive_iff`). At its start a traversal
lists whole components one after the other (`exists_parts`), so those are never divided.

* `traverse_consecutive_iff`: which components of the call graph of an index stand together. -/

namespace CallAtlas.Graph

/-! ## Consecutive places -/

/-- The members of a list stand in consecutive places. -/
def Consecutive {α : Type} (listed : List α) (member : α → Prop) : Prop :=
  ∃ first stop : Nat, ∀ k a, listed[k]? = some a → (member a ↔ first ≤ k ∧ k < stop)

/-- Numbers without gaps form an interval. -/
theorem exists_interval {P : Nat → Prop} {n : Nat} (hlt : ∀ k, P k → k < n)
    (hbetween : ∀ i j k, P i → P k → i < j → j < k → P j) :
    ∃ first stop, ∀ k, P k ↔ first ≤ k ∧ k < stop := by
  classical
  by_cases hsome : ∃ k, P k
  · have hfirst := Nat.find_spec hsome
    have hlast := Nat.findGreatest_spec (hlt _ hfirst).le hfirst
    refine ⟨Nat.find hsome, Nat.findGreatest P n + 1, fun k => ⟨fun hk => ?_, fun ⟨hle, hstop⟩ => ?_⟩⟩
    · exact ⟨Nat.find_le hk, Nat.lt_succ_of_le (Nat.le_findGreatest (hlt k hk).le hk)⟩
    · rcases hle.eq_or_lt with rfl | hl
      · exact hfirst
      · rcases (Nat.le_of_lt_succ hstop).eq_or_lt with rfl | hg
        · exact hlast
        · exact hbetween _ _ _ hfirst hlast hl hg
  · refine ⟨0, 0, fun k => ⟨fun hk => absurd ⟨k, hk⟩ hsome, fun h => ?_⟩⟩
    omega

/-- Members stand together iff nothing else stands between two of them. -/
theorem consecutive_iff {α : Type} [DecidableEq α] {listed : List α} (hnodup : listed.Nodup)
    {member : α → Prop} : Consecutive listed member ↔
      ∀ a ∈ listed, ∀ b ∈ listed, ∀ c ∈ listed, member a → member b →
        listed.idxOf a < listed.idxOf c → listed.idxOf c < listed.idxOf b → member c := by
  constructor
  · rintro ⟨first, stop, hmember⟩ a ha b hb c hc hma hmb hac hcb
    have := (hmember _ a (List.getElem?_idxOf ha)).1 hma
    have := (hmember _ b (List.getElem?_idxOf hb)).1 hmb
    exact (hmember _ c (List.getElem?_idxOf hc)).2 (by omega)
  · intro hbetween
    have hgap : ∀ i j k : Nat, (∃ a, listed[i]? = some a ∧ member a) →
        (∃ a, listed[k]? = some a ∧ member a) → i < j → j < k →
        ∃ a, listed[j]? = some a ∧ member a := by
      rintro i j k ⟨a, ha, hma⟩ ⟨b, hb, hmb⟩ hij hjk
      obtain ⟨hi, rfl⟩ := List.getElem?_eq_some_iff.1 ha
      obtain ⟨hk, rfl⟩ := List.getElem?_eq_some_iff.1 hb
      have hj : j < listed.length := by omega
      refine ⟨listed[j], List.getElem?_eq_getElem hj, hbetween _ (List.getElem_mem hi) _
        (List.getElem_mem hk) _ (List.getElem_mem hj) hma hmb ?_ ?_⟩
      · rwa [hnodup.idxOf_getElem, hnodup.idxOf_getElem]
      · rwa [hnodup.idxOf_getElem, hnodup.idxOf_getElem]
    obtain ⟨first, stop, hinterval⟩ := exists_interval
      (fun k ⟨a, ha, _⟩ => (List.getElem?_eq_some_iff.1 ha).1) hgap
    refine ⟨first, stop, fun k a ha => ?_⟩
    rw [← hinterval k]
    constructor
    · exact fun hma => ⟨a, ha, hma⟩
    · rintro ⟨b, hb, hmb⟩
      rwa [Option.some.inj (ha.symm.trans hb)]

/-- A stretch of a list without repetitions stands together. -/
theorem consecutive_append {α : Type} {before inside behind : List α}
    (h : (before ++ inside ++ behind).Nodup) :
    Consecutive (before ++ inside ++ behind) (· ∈ inside) := by
  obtain ⟨hfront, -, hbehind⟩ := List.nodup_append.1 h
  obtain ⟨-, -, hbefore⟩ := List.nodup_append.1 hfront
  refine ⟨before.length, before.length + inside.length, fun k a ha => ?_⟩
  rw [List.append_assoc, List.getElem?_append] at ha
  split at ha
  · next hlt =>
    have hmem := List.mem_of_getElem? ha
    exact iff_of_false (fun hin => hbefore a hmem a hin rfl) (by omega)
  · next hge =>
    rw [List.getElem?_append] at ha
    split at ha
    · exact iff_of_true (List.mem_of_getElem? ha) (by omega)
    · have hmem := List.mem_of_getElem? ha
      exact iff_of_false (fun hin => hbehind a (by simp [hin]) a hmem rfl) (by omega)

/-- The node at one of the positions of a component. -/
def CallGraph.InComponent (g : CallGraph) (c : List Int) (l : Location) : Prop :=
  ∃ i ∈ c, g.nodes[i.toNat]? = some l

namespace Ordered

variable {g : CallGraph} {d : Direction} {listed : List Location} {way : Int → List Nat}

/-- A component stands together iff what has a first way between two of its members is a member. -/
theorem consecutive_iff (h : Ordered g d listed way) (hnodes : g.nodes.Nodup) {c : List Int}
    (hc : ∀ i ∈ c, i ∈ positions g.nodes.length) :
    Consecutive listed (g.InComponent c) ↔
      ∀ i ∈ c, ∀ j ∈ c, ∀ k ∈ positions g.nodes.length, List.Shortlex (· < ·) (way i) (way k) →
        List.Shortlex (· < ·) (way k) (way j) → k ∈ c := by
  have hnode : ∀ i ∈ positions g.nodes.length, ∃ l, g.nodes[i.toNat]? = some l ∧ l ∈ listed := by
    intro i hi
    have hi := mem_positions.1 hi
    have hlt : i.toNat < g.nodes.length := by omega
    exact ⟨_, List.getElem?_eq_getElem hlt, h.perm.mem_iff.2 (List.getElem_mem hlt)⟩
  rw [Graph.consecutive_iff (h.perm.nodup_iff.2 hnodes)]
  constructor
  · intro hbetween i hi j hj k hk hik hkj
    obtain ⟨a, ha, hal⟩ := hnode i (hc i hi)
    obtain ⟨b, hb, hbl⟩ := hnode j (hc j hj)
    obtain ⟨l, hl, hll⟩ := hnode k hk
    obtain ⟨k', hk', hl'⟩ := hbetween a hal b hbl l hll ⟨i, hi, ha⟩ ⟨j, hj, hb⟩
      ((h.before i (hc i hi) k hk a l ha hl).2 hik) ((h.before k hk j (hc j hj) l b hl hb).2 hkj)
    rwa [position_unique hnodes hk (hc k' hk') (hl.trans hl'.symm)]
  · rintro hbetween a - b - l hll ⟨i, hi, ha⟩ ⟨j, hj, hb⟩ hal hlb
    obtain ⟨m, hm, rfl⟩ := List.getElem_of_mem (h.perm.mem_iff.1 hll)
    have hk : (m : Int) ∈ positions g.nodes.length := mem_positions.2 (by omega)
    have hl : g.nodes[(m : Int).toNat]? = some g.nodes[m] := by simp [hm]
    exact ⟨m, hbetween i hi j hj m hk ((h.before i (hc i hi) m hk _ _ ha hl).1 hal)
      ((h.before m hk j (hc j hj) _ _ hl hb).1 hlb), hl⟩

end Ordered

/-! ## Components at the start -/

/-- A first way of one choice is the place of a start. -/
theorem FirstWay.eq_singleton {α : Type} {next : α → List α} {starts : List α} {way : List Nat}
    {v : α} (h : FirstWay next starts way v) (hshort : way.length ≤ 1) :
    ∃ k, way = [k] ∧ starts[k]? = some v := by
  cases h.leads with
  | start hk => exact ⟨_, rfl, hk⟩
  | @step way u hway k _ hk =>
    have hpos := hway.length_pos
    rw [List.length_append, List.length_singleton] at hshort
    omega

/-- Whatever components a traversal starts with, it lists them one after the other. -/
theorem exists_parts {components : List (List Int)} {p : List Int × Nat → Bool} {other : List Int}
    (hother : other ∈ components) : ∃ parts : List (List Int), parts.Sublist components ∧
      (match components.zipIdx.filter p with
        | [] => other
        | cs => cs.flatMap Prod.fst) = parts.flatten := by
  split
  · exact ⟨[other], List.singleton_sublist.2 hother, by simp⟩
  · refine ⟨(components.zipIdx.filter p).map Prod.fst, ?_, List.flatMap_def⟩
    have hsub : ((components.zipIdx.filter p).map Prod.fst).Sublist
        (components.zipIdx.map Prod.fst) := List.filter_sublist.map Prod.fst
    rwa [List.zipIdx_map_fst] at hsub

theorem CallGraph.exists_parts_starts {g : CallGraph} (hsome : g.components ≠ []) (d : Direction) :
    ∃ parts : List (List Int), parts.Sublist g.components ∧ g.starts d = parts.flatten := by
  rw [CallGraph.starts_eq hsome]
  split
  · refine exists_parts ?_
    rw [List.head?_eq_some_head hsome]
    exact List.head_mem hsome
  · refine exists_parts ?_
    rw [List.getLast?_eq_some_getLast hsome]
    exact List.getLast_mem hsome

/-- A component that a traversal starts with is never divided. -/
theorem Ordered.consecutive_of_start {g : CallGraph} {d : Direction} {listed : List Location}
    {way : Int → List Nat} (h : Ordered g d listed way) (hnodes : g.nodes.Nodup)
    (hparts : g.components.flatten.Nodup) {c : List Int} (hmem : c ∈ g.components)
    (hc : ∀ i ∈ c, i ∈ positions g.nodes.length) {i : Int} (hi : i ∈ c) (hstart : i ∈ g.starts d) :
    Consecutive listed (g.InComponent c) := by
  obtain ⟨parts, hsub, hstarts⟩ := g.exists_parts_starts (List.ne_nil_of_mem hmem) d
  have hnodup : (g.starts d).Nodup := hstarts ▸ hparts.sublist hsub.flatten
  -- the start lies in a part, and that is the component
  have hpart : c ∈ parts := by
    obtain ⟨c', hc', hi'⟩ := List.mem_flatten.1 (hstarts ▸ hstart)
    obtain ⟨m, hm⟩ := List.mem_iff_getElem?.1 hmem
    obtain ⟨m', hm'⟩ := List.mem_iff_getElem?.1 (hsub.subset hc')
    obtain rfl := IsComponents.part_unique hparts hm hm' hi hi'
    rwa [Option.some.inj (hm.symm.trans hm')]
  obtain ⟨before, behind, hsplit⟩ := List.append_of_mem hpart
  have hflat : g.starts d = before.flatten ++ c ++ behind.flatten := by
    rw [hstarts, hsplit]
    simp
  obtain ⟨first, stop, hplaces⟩ := hflat ▸ consecutive_append (hflat ▸ hnodup)
  have hplace : ∀ j ∈ c, ∃ m, way j = [m] ∧ (g.starts d)[m]? = some j := by
    intro j hj
    obtain ⟨m, hm⟩ := List.mem_iff_getElem?.1 (show j ∈ g.starts d by rw [hflat]; simp [hj])
    have hfirst := h.first j (hc j hj)
    refine hfirst.eq_singleton ?_
    rcases hfirst.first [m] (.start hm) with heq | hlt
    · simp [← heq]
    · exact length_le_of_shortlex hlt
  refine (h.consecutive_iff hnodes hc).2 fun a ha b hb k hk hak hkb => ?_
  obtain ⟨m, hm, ham⟩ := hplace a ha
  obtain ⟨n, hn, hbn⟩ := hplace b hb
  rw [hn] at hkb
  obtain ⟨r, hr, hkr⟩ := (h.first k hk).eq_singleton (length_le_of_shortlex hkb)
  rw [hm, hr, List.shortlex_singleton_iff] at hak
  rw [hr, List.shortlex_singleton_iff] at hkb
  have := (hplaces m a ham).1 ha
  have := (hplaces n b hbn).1 hb
  exact (hplaces r k hkr).2 (by omega)

/-! ## Call graphs -/

/-- In a call graph that `build` gives with its components, `traverse` either way, from where it
chooses to start, lists the nodes by the first ways to them (`Ordered`). A component is
`Consecutive` iff every node whose way is between those of two members is a member itself;
components at the `starts` are. -/
theorem traverse_consecutive_iff (ix : Index) (expand : Bool) (direction : Direction)
    (entryPoints : List Location) :
    ∃ g, build ix ⟨expand, direction, entryPoints, true⟩ = .ok g ∧
      componentsOf g.nodes.length g.edges = .ok g.components ∧
      ∀ d, d ≠ .both → ∃ listed way, g.traverse d none = .ok listed ∧ Ordered g d listed way ∧
        ∀ c ∈ g.components,
          (Consecutive listed (g.InComponent c) ↔
            ∀ i ∈ c, ∀ j ∈ c, ∀ k ∈ positions g.nodes.length,
              List.Shortlex (· < ·) (way i) (way k) → List.Shortlex (· < ·) (way k) (way j) →
                k ∈ c) ∧
          ((∃ i ∈ c, i ∈ g.starts d) → Consecutive listed (g.InComponent c)) := by
  obtain ⟨g, hg, hregular⟩ := build_regular ix ⟨expand, direction, entryPoints, true⟩
  obtain ⟨hcomponents, -, hcondensed⟩ := Part.condensed hregular.edges (components_of_build hg)
  refine ⟨g, hg, hcomponents, fun d hd => ?_⟩
  obtain ⟨listed, way, hlisted, hordered⟩ :=
    CallGraph.exists_ordered hregular.nodes hregular.edges hcondensed hd
  refine ⟨listed, way, hlisted, hordered, fun c hmem => ?_⟩
  have hc : ∀ i ∈ c, i ∈ positions g.nodes.length := fun i hi =>
    (hcondensed.parts.mem_iff i).1 (List.mem_flatten_of_mem hmem hi)
  refine ⟨hordered.consecutive_iff hregular.nodes hc, ?_⟩
  rintro ⟨i, hi, hstart⟩
  exact hordered.consecutive_of_start hregular.nodes hcondensed.parts.nodup hmem hc hi hstart

/-- A function calls the first of three that call each other in a circle, and that one calls a leaf
as well. -/
def circleWithLeaf : Index :=
  let line (n : Int) : Location := ⟨.here, n, 0, n, 9, 10 * n, 10 * n + 9⟩
  .linked (((((Linked.empty.addDefinition (.function "main")
      ⟨line 1, none, [⟨.function "a", line 2⟩], none, none⟩).addDefinition
    (.function "a") ⟨line 3, none, [⟨.function "b", line 4⟩, ⟨.function "leaf", line 5⟩], none,
      none⟩).addDefinition
    (.function "b") ⟨line 6, none, [⟨.function "c", line 7⟩], none, none⟩).addDefinition
    (.function "c") ⟨line 8, none, [⟨.function "a", line 9⟩], none, none⟩).addDefinition
    (.function "leaf") ⟨line 10, none, [], none, none⟩)

/-- Its call graph. -/
def circleWithLeafGraph : CallGraph :=
  ⟨[⟨.here, 1, 0, 1, 9, 10, 19⟩, ⟨.here, 3, 0, 3, 9, 30, 39⟩, ⟨.here, 6, 0, 6, 9, 60, 69⟩,
      ⟨.here, 10, 0, 10, 9, 100, 109⟩, ⟨.here, 8, 0, 8, 9, 80, 89⟩],
    [.function "main", .function "a", .function "b", .function "leaf", .function "c"],
    [⟨0, 1, .must⟩, ⟨1, 2, .must⟩, ⟨1, 3, .must⟩, ⟨2, 4, .must⟩, ⟨4, 1, .must⟩],
    [[3], [4, 2, 1], [0]], [(1, 0), (2, 1)], [], some ⟨5, 5, 0⟩⟩

theorem build_circleWithLeaf :
    build circleWithLeaf ⟨true, .forward, [], true⟩ = .ok circleWithLeafGraph := by
  have hcross : crossings [[3], [4, 2, 1], [0]] (wholePart circleWithLeaf true .forward).edges =
      .ok [(2, 1), (1, 0)] := by decide +kernel
  have hpairs : condense [[3], [4, 2, 1], [0]] (wholePart circleWithLeaf true .forward).edges =
      .ok [(1, 0), (2, 1)] := condense_eq hcross (by decide) (by decide)
  refine (build_eq_ok (by decide +kernel) hpairs).trans ?_
  decide +kernel

/-- The leaf is one call from the first function of the circle and the last function of the circle
is two calls from it, so the leaf comes in between. -/
theorem traverse_consecutive_iff_circleWithLeaf :
    ∃ (listed : List Location) (way : Int → List Nat),
      circleWithLeafGraph.traverse .forward none = .ok listed ∧
      Ordered circleWithLeafGraph .forward listed way ∧
      listed.map Location.startLine = [1, 3, 6, 10, 8] ∧
      [4, 2, 1] ∈ circleWithLeafGraph.components ∧
      List.Shortlex (· < ·) (way 2) (way 3) ∧ List.Shortlex (· < ·) (way 3) (way 4) ∧
      ¬ Consecutive listed (circleWithLeafGraph.InComponent [4, 2, 1]) := by
  obtain ⟨g, hg, -, htraverse⟩ := traverse_consecutive_iff circleWithLeaf true .forward []
  obtain rfl := Except.ok.inj (hg.symm.trans build_circleWithLeaf)
  obtain ⟨listed, way, hlisted, hordered, hiff⟩ := htraverse .forward (by decide)
  have htraversed : circleWithLeafGraph.traverse .forward none = .ok
      [⟨.here, 1, 0, 1, 9, 10, 19⟩, ⟨.here, 3, 0, 3, 9, 30, 39⟩, ⟨.here, 6, 0, 6, 9, 60, 69⟩,
        ⟨.here, 10, 0, 10, 9, 100, 109⟩, ⟨.here, 8, 0, 8, 9, 80, 89⟩] := by decide
  obtain rfl := Except.ok.inj (hlisted.symm.trans htraversed)
  have hbefore : List.Shortlex (· < ·) (way 2) (way 3) :=
    (hordered.before 2 (by decide) 3 (by decide) _ _ rfl rfl).1 (by decide)
  have hbehind : List.Shortlex (· < ·) (way 3) (way 4) :=
    (hordered.before 3 (by decide) 4 (by decide) _ _ rfl rfl).1 (by decide)
  refine ⟨_, way, hlisted, hordered, rfl, by decide, hbefore, hbehind, fun htogether => ?_⟩
  have hleaf := (hiff [4, 2, 1] (by decide)).1.1 htogether 2 (by decide) 4 (by decide) 3 (by decide)
    hbefore hbehind
  revert hleaf
  decide

end CallAtlas.Graph
