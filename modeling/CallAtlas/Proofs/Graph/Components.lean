import CallAtlas.Proofs.Graph.Search
import Mathlib.Data.List.Range

/-! # The components of a call graph

`IsComponents next vertices found`: `found` holds each vertex once, in parts that are not empty,
whose vertices lead to each other, and that lead only to themselves and to parts before them. Such
parts are the components (`IsComponents.same_iff`): two vertices stand in one part iff each leads to
the other.

* `isComponents`: a whole search finds them (`Search.components_inv`).
* `componentsOf_partition`: the components of a call graph whose edges join its nodes. -/

namespace CallAtlas.Graph

/-! ## Parts that lead to earlier parts -/

/-- `found` are the components of a graph, each behind those that it leads to (module doc). -/
structure IsComponents {α : Type} (next : α → List α) (vertices : List α) (found : List (List α)) :
    Prop where
  nodup : found.flatten.Nodup
  mem_iff : ∀ v, v ∈ found.flatten ↔ v ∈ vertices
  inhabited : ∀ c ∈ found, c ≠ []
  strong : ∀ c ∈ found, ∀ v ∈ c, ∀ w ∈ c, Leads next v w
  closed : ∀ (i : Nat) c, found[i]? = some c → ∀ v ∈ c, ∀ w ∈ next v,
    ∃ (j : Nat) (c' : List α), j ≤ i ∧ found[j]? = some c' ∧ w ∈ c'

theorem isComponents {α κ : Type} [DecidableEq κ] {key : α → κ} {next : α → List α}
    {vertices : List α} (hG : Search.Closed key next vertices) :
    IsComponents next vertices (Search.components key vertices next) := by
  obtain ⟨s, hI, hs, hf, hv⟩ := Search.components_inv hG
  rw [← hf]
  refine ⟨(List.nodup_append.1 hI.nodup).2.1, fun v => ⟨fun h => hI.mem v (.inr h), hv v⟩,
    hI.inhabited, hI.strong, hI.closed⟩

namespace IsComponents

variable {α : Type} {next : α → List α} {vertices : List α} {found : List (List α)}

/-- A vertex stands in one part. -/
theorem part_unique (h : found.flatten.Nodup) {v : α} {i j : Nat} {c c' : List α}
    (hi : found[i]? = some c) (hj : found[j]? = some c') (hc : v ∈ c) (hc' : v ∈ c') : i = j := by
  obtain ⟨hil, rfl⟩ := List.getElem?_eq_some_iff.1 hi
  obtain ⟨hjl, rfl⟩ := List.getElem?_eq_some_iff.1 hj
  have hd := (List.nodup_flatten.1 h).2
  rw [List.pairwise_iff_getElem] at hd
  rcases Nat.lt_trichotomy i j with hij | hij | hij
  · exact (hd i j hil hjl hij hc hc').elim
  · exact hij
  · exact (hd j i hjl hil hij hc' hc).elim

/-- What a part leads to stands in it or before it. -/
theorem part_le (h : IsComponents next vertices found) {v w : α} (hl : Leads next v w) {i : Nat}
    {c : List α} (hi : found[i]? = some c) (hv : v ∈ c) :
    ∃ (j : Nat) (c' : List α), j ≤ i ∧ found[j]? = some c' ∧ w ∈ c' := by
  induction hl with
  | refl => exact ⟨i, c, Nat.le_refl i, hi, hv⟩
  | tail _ hw ih =>
    obtain ⟨j, c', hji, hj, hx⟩ := ih
    obtain ⟨k, d, hkj, hk, hy⟩ := h.closed j c' hj _ hx _ hw
    exact ⟨k, d, Nat.le_trans hkj hji, hk, hy⟩

/-- Two vertices stand in one part iff each leads to the other. -/
theorem same_iff (h : IsComponents next vertices found) {v w : α} (hv : v ∈ vertices) :
    (∃ c ∈ found, v ∈ c ∧ w ∈ c) ↔ Leads next v w ∧ Leads next w v := by
  constructor
  · rintro ⟨c, hc, hvc, hwc⟩
    exact ⟨h.strong c hc v hvc w hwc, h.strong c hc w hwc v hvc⟩
  · rintro ⟨hvw, hwv⟩
    obtain ⟨c, hc, hvc⟩ := List.mem_flatten.1 ((h.mem_iff v).2 hv)
    obtain ⟨i, hi⟩ := List.mem_iff_getElem?.1 hc
    obtain ⟨j, c', hji, hj, hw⟩ := h.part_le hvw hi hvc
    obtain ⟨k, d, hkj, hk, hv'⟩ := h.part_le hwv hj hw
    have hik := part_unique h.nodup hi hk hvc hv'
    have hij : i = j := by omega
    subst hij
    rw [hi, Option.some.injEq] at hj
    subst hj
    exact ⟨c, hc, hvc, hw⟩

end IsComponents

/-! ## Call graphs -/

/-- Whether a call goes from one position to another. -/
def Joins (edges : List Edge) (i j : Int) : Prop := ∃ e ∈ edges, e.source = i ∧ e.target = j

/-- Whether a position is reached from another along calls. -/
def Reaches (edges : List Edge) : Int → Int → Prop := Relation.ReflTransGen (Joins edges)

theorem reaches_eq_leads (edges : List Edge) : Reaches edges = Leads (successors edges) := by
  have : Joins edges = fun i j => j ∈ successors edges i := by
    funext i j
    rw [mem_successors]
    rfl
  rw [Reaches, Leads, this]

theorem mem_positions {n : Nat} {i : Int} : i ∈ positions n ↔ 0 ≤ i ∧ i < n := by
  simp only [positions, List.mem_map, List.mem_range]
  constructor
  · rintro ⟨k, hk, rfl⟩
    exact ⟨Int.natCast_nonneg k, Int.ofNat_lt.2 hk⟩
  · rintro ⟨h0, hn⟩
    exact ⟨i.toNat, by omega, Int.toNat_of_nonneg h0⟩

theorem nodup_positions (n : Nat) : (positions n).Nodup :=
  List.nodup_range.map fun _ _ h => Int.ofNat.inj h

theorem slot?_of_mem {n : Nat} {i : Int} (h : i ∈ positions n) : slot? n i = some i.toNat :=
  if_pos (mem_positions.1 h)

/-- Edges between nodes lead from positions to positions. -/
theorem closed_of_inRange {n : Nat} {edges : List Edge} (h : InRange n edges) :
    Search.Closed (slot? n) (successors edges) (positions n) := by
  constructor
  · intro a ha b hb hab
    rw [slot?_of_mem ha, slot?_of_mem hb, Option.some.injEq] at hab
    have := (mem_positions.1 ha).1
    have := (mem_positions.1 hb).1
    omega
  · intro a _ b hb
    obtain ⟨e, he, -, rfl⟩ := mem_successors.1 hb
    exact mem_positions.2 (h e he).2

theorem componentsOf_eq {n : Nat} {edges : List Edge} (h : InRange n edges) :
    componentsOf n edges = .ok (Search.components (slot? n) (positions n) (successors edges)) := by
  have hC := isComponents (closed_of_inRange h)
  rw [componentsOf]
  refine if_neg ?_
  simp only [List.any_eq_true, not_exists, not_and]
  intro c hc i hi
  have hp := (hC.mem_iff i).1 (List.mem_flatten.2 ⟨c, hc, hi⟩)
  simp [slot?_of_mem hp]

/-- A position has the number of the one component that holds it. -/
theorem componentOf?_eq_some_iff {components : List (List Int)} (h : components.flatten.Nodup)
    {i k : Int} : componentOf? components i = some k ↔
      ∃ (m : Nat) (c : List Int), k = m ∧ components[m]? = some c ∧ i ∈ c := by
  rw [componentOf?, Option.map_eq_some_iff]
  constructor
  · rintro ⟨⟨c, m⟩, hf, rfl⟩
    have hm := List.mem_reverse.1 (List.mem_of_find?_eq_some hf)
    refine ⟨m, c, rfl, List.mem_zipIdx_iff_getElem?.1 hm, ?_⟩
    simpa using List.find?_some hf
  · rintro ⟨m, c, rfl, hm, hi⟩
    obtain ⟨⟨d, j⟩, hf⟩ : ∃ e, components.zipIdx.reverse.find? (fun e => decide (i ∈ e.1)) =
        some e := by
      rw [← Option.isSome_iff_exists, List.find?_isSome]
      exact ⟨(c, m), List.mem_reverse.2 (List.mem_zipIdx_iff_getElem?.2 hm), by simpa using hi⟩
    have hd := List.mem_zipIdx_iff_getElem?.1 (List.mem_reverse.1 (List.mem_of_find?_eq_some hf))
    have hid : i ∈ d := by simpa using List.find?_some hf
    have hjm := IsComponents.part_unique h hd hm hid hi
    exact ⟨(d, j), hf, by rw [hjm]; rfl⟩

/-- If the edges are `InRange`, `componentsOf` answers with what `Search.scan` finds at every depth
of at least `n`. The components are a partition of the `positions` into parts that are not empty,
two positions stand in one of them iff each `Reaches` the other, and `componentOf?` tells for each
position where its component stands. -/
theorem componentsOf_partition (n : Nat) (edges : List Edge) (h : InRange n edges) :
    ∃ components : List (List Int), componentsOf n edges = .ok components ∧
      (∀ depth ≥ n, (Search.scan (slot? n) (Search.visit (slot? n) (successors edges) depth)
        (positions n) Search.start).2.found = components) ∧
      components.flatten.Perm (positions n) ∧
      (∀ c ∈ components, c ≠ []) ∧
      (∀ i ∈ positions n, ∀ j ∈ positions n,
        (∃ c ∈ components, i ∈ c ∧ j ∈ c) ↔ Reaches edges i j ∧ Reaches edges j i) ∧
      (∀ i ∈ positions n, ∃ (k : Nat) (c : List Int),
        componentOf? components i = some (k : Int) ∧ components[k]? = some c ∧ i ∈ c) := by
  have hG := closed_of_inRange h
  have hC := isComponents hG
  refine ⟨_, componentsOf_eq h, fun depth hd => ?_, ?_, hC.inhabited, fun i hi j _ => ?_,
    fun i hi => ?_⟩
  · exact Search.scan_depth hG (by simpa [positions] using hd)
  · exact (List.perm_ext_iff_of_nodup hC.nodup (nodup_positions n)).2 hC.mem_iff
  · rw [reaches_eq_leads]
    exact hC.same_iff hi
  · obtain ⟨c, hc, hic⟩ := List.mem_flatten.1 ((hC.mem_iff i).2 hi)
    obtain ⟨k, hk⟩ := List.mem_iff_getElem?.1 hc
    exact ⟨k, c, (componentOf?_eq_some_iff hC.nodup).2 ⟨k, c, rfl, hk, hic⟩, hk, hic⟩

/-- Two circles with a call from one to the other, a call of a node by itself, a call that is made
twice, and calls back and across. -/
def twoCircles : List Edge :=
  [⟨0, 1, .must⟩, ⟨0, 3, .may⟩, ⟨1, 2, .must⟩, ⟨1, 2, .may⟩, ⟨2, 2, .must⟩, ⟨2, 0, .must⟩,
   ⟨2, 4, .must⟩, ⟨3, 4, .must⟩, ⟨4, 3, .must⟩]

theorem componentsOf_partition_twoCircles :
    InRange 5 twoCircles ∧ componentsOf 5 twoCircles = .ok [[3, 4], [2, 1, 0]] ∧
      Reaches twoCircles 0 2 ∧ Reaches twoCircles 2 0 ∧
      ¬ (Reaches twoCircles 2 4 ∧ Reaches twoCircles 4 2) := by
  have hr : InRange 5 twoCircles := by decide
  have he : componentsOf 5 twoCircles = .ok [[3, 4], [2, 1, 0]] := by rfl
  obtain ⟨components, hc, -, -, -, hiff, -⟩ := componentsOf_partition 5 twoCircles hr
  rw [he, Except.ok.injEq] at hc
  subst hc
  obtain ⟨h02, h20⟩ := (hiff 0 (by decide) 2 (by decide)).1 ⟨[2, 1, 0], by decide, by decide⟩
  refine ⟨hr, he, h02, h20, fun h => ?_⟩
  have := (hiff 2 (by decide) 4 (by decide)).2 h
  revert this
  decide

end CallAtlas.Graph
