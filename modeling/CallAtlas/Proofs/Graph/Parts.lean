import CallAtlas.Proofs.Graph.Build
import CallAtlas.Proofs.Graph.Routes

/-! # Parts of a call graph

`Near edges root depth i`: position `i` can be reached from a root in at most `depth` steps. The
search by levels finds these positions (`mem_within`): what has been seen leads, but for its last
level, only to what has been seen, so every further round takes one step more. `Part.Keeps whole
part keep`: `part` is what `whole` has at the positions `keep`.

* `reachMask_near`: the mask of a search keeps what is near.
* `restrict_keeps`: a part that is cut out by a mask.
* `subgraph_exact`: what is near some nodes of a call graph, and the call graph of an index from
  entry points. -/

namespace CallAtlas.Graph

/-! ## Levels -/

section Levels

variable {α : Type} [DecidableEq α]

theorem Arrows.mem_next {A : Arrows α} {v w : α} :
    w ∈ A.next v ↔ ∃ e, A.source e = v ∧ A.target e = w := by
  simp only [Arrows.next, List.mem_map, mem_leaving]

theorem mem_nextLevel {next : α → List α} {seen level : List α} {w : α} :
    w ∈ nextLevel next seen level ↔ (∃ v ∈ level, w ∈ next v) ∧ w ∉ seen := by
  simp only [nextLevel, List.mem_filter, List.mem_eraseDups, List.mem_flatMap, decide_eq_true_eq]

theorem Arrows.Walk.mem_of_closed {A : Arrows α} {seen : List α}
    (hclosed : ∀ v ∈ seen, ∀ w ∈ A.next v, w ∈ seen) {n : Nat} {v w : α} (h : A.Walk n v w)
    (hv : v ∈ seen) : w ∈ seen := by
  induction h with
  | stay v => exact hv
  | step goal e hs _ ih => exact ih (hclosed _ hv _ (mem_next.2 ⟨e, hs, rfl⟩))

/-- A search finds what can be reached from what has been seen in as many steps as it has rounds,
if only the level leads to anything new. -/
theorem mem_within {A : Arrows α} {rounds : Nat} {seen level : List α}
    (hlevel : ∀ v ∈ level, v ∈ seen)
    (hdone : ∀ v ∈ seen, v ∉ level → ∀ w ∈ A.next v, w ∈ seen) {w : α} :
    w ∈ within A.next rounds seen level ↔ ∃ v ∈ seen, ∃ n ≤ rounds, A.Walk n v w := by
  induction rounds generalizing seen level with
  | zero =>
    constructor
    · intro hw
      exact ⟨w, hw, 0, Nat.le_refl _, .stay w⟩
    · rintro ⟨v, hv, n, hn, hwalk⟩
      obtain rfl := Nat.le_zero.1 hn
      cases hwalk
      exact hv
  | succ rounds ih =>
    have hnext : ∀ v ∈ seen, ∀ w ∈ A.next v, w ∈ seen ∨ w ∈ nextLevel A.next seen level := by
      intro v hv w hw
      by_cases hl : v ∈ level
      · by_cases hs : w ∈ seen
        · exact .inl hs
        · exact .inr (mem_nextLevel.2 ⟨⟨v, hl, hw⟩, hs⟩)
      · exact .inl (hdone v hv hl w hw)
    rw [within]
    split
    · next hmore =>
      -- no level follows, so nothing leads out of what has been seen
      have hclosed : ∀ v ∈ seen, ∀ w ∈ A.next v, w ∈ seen := fun v hv w hw =>
        (hnext v hv w hw).resolve_right (by simp [hmore])
      constructor
      · intro hw
        exact ⟨w, hw, 0, Nat.zero_le _, .stay w⟩
      · rintro ⟨v, hv, n, -, hwalk⟩
        exact hwalk.mem_of_closed hclosed hv
    · next more hne =>
      rw [ih (fun v hv => List.mem_append_right _ hv) ?_]
      · constructor
        · rintro ⟨v, hv, n, hn, hwalk⟩
          rcases List.mem_append.1 hv with hv | hv
          · exact ⟨v, hv, n, by omega, hwalk⟩
          · obtain ⟨⟨u, hu, huv⟩, -⟩ := mem_nextLevel.1 hv
            obtain ⟨e, hs, rfl⟩ := Arrows.mem_next.1 huv
            exact ⟨u, hlevel u hu, n + 1, by omega, .step w e hs hwalk⟩
        · rintro ⟨v, hv, n, hn, hwalk⟩
          cases hwalk with
          | stay => exact ⟨w, List.mem_append_left _ hv, 0, Nat.zero_le _, .stay w⟩
          | step _ e hs rest =>
            have hv' := hnext v hv _ (Arrows.mem_next.2 ⟨e, hs, rfl⟩)
            exact ⟨_, List.mem_append.2 hv', _, by omega, rest⟩
      · intro v hv hl w hw
        rcases List.mem_append.1 hv with hv | hv
        · exact List.mem_append.2 (hnext v hv w hw)
        · exact absurd hv hl

end Levels

/-! ## Items at positions -/

/-- What a list has at some positions, one after the other. -/
def Picks {α : Type} (items : List α) (is : List Int) (as : List α) : Prop :=
  as.map some = is.map fun i => items[i.toNat]?

theorem at?_of_mem {α : Type} {items : List α} {i : Int} (h : i ∈ positions items.length) :
    at? items i = items[i.toNat]? := by
  rw [at?, slot?_of_mem h, Option.bind_some]

/-- Different positions of a list without repetitions have different items. -/
theorem position_unique {α : Type} {items : List α} (hitems : items.Nodup) {i j : Int}
    (hi : i ∈ positions items.length) (hj : j ∈ positions items.length)
    (h : items[i.toNat]? = items[j.toNat]?) : i = j := by
  have hi := mem_positions.1 hi
  have hj := mem_positions.1 hj
  have hlt : i.toNat < items.length := by omega
  have := (List.getElem?_inj hlt hitems).1 h
  omega

namespace Picks

variable {α : Type} {items as : List α} {is : List Int}

theorem length_eq (h : Picks items is as) : as.length = is.length := by
  simpa using congrArg List.length h

theorem mem_iff (h : Picks items is as) {a : α} :
    a ∈ as ↔ ∃ i ∈ is, items[i.toNat]? = some a := by
  rw [← List.mem_map_of_injective (Option.some_injective α), h, List.mem_map]

theorem nodup (h : Picks items is as) (hitems : items.Nodup) (his : is.Nodup)
    (hrange : ∀ i ∈ is, i ∈ positions items.length) : as.Nodup := by
  refine List.Nodup.of_map some ?_
  rw [h]
  exact his.map_on fun i hi j hj hij => position_unique hitems (hrange i hi) (hrange j hj) hij

end Picks

theorem itemsAt_picks {α : Type} {items : List α} {is : List Int}
    (h : ∀ i ∈ is, i ∈ positions items.length) :
    ∃ as, itemsAt items is = .ok as ∧ Picks items is as := by
  induction is with
  | nil => exact ⟨[], rfl, rfl⟩
  | cons i is ih =>
    obtain ⟨as, has, hpicks⟩ := ih fun i hi => h i (.tail _ hi)
    have hi := h i (.head _)
    have hlt : i.toNat < items.length := by
      have := mem_positions.1 hi
      omega
    have hat : itemAt items i = .ok items[i.toNat] := by
      rw [itemAt, at?_of_mem hi, List.getElem?_eq_getElem hlt]
    refine ⟨items[i.toNat] :: as, by rw [itemsAt, hat, has], ?_⟩
    rw [Picks, List.map_cons, List.map_cons, List.getElem?_eq_getElem hlt, hpicks]

/-! ## Cutting out -/

section Kept

variable {α β : Type} {mask : List Bool}

theorem kept_cons (b : Bool) (mask : List Bool) (a : α) (as : List α) :
    kept (b :: mask) (a :: as) = if b then a :: kept mask as else kept mask as := by
  cases b <;> rfl

theorem kept_sublist (mask : List Bool) (as : List α) : (kept mask as).Sublist as := by
  induction mask generalizing as with
  | nil => exact List.nil_sublist as
  | cons b mask ih =>
    cases as with
    | nil => exact List.Sublist.refl []
    | cons a as =>
      rw [kept_cons]
      split
      · exact (ih as).cons_cons a
      · exact (ih as).cons a

theorem kept_map (f : α → β) (mask : List Bool) (as : List α) :
    kept mask (as.map f) = (kept mask as).map f := by
  induction mask generalizing as with
  | nil => rfl
  | cons b mask ih =>
    cases as with
    | nil => rfl
    | cons a as =>
      rw [List.map_cons, kept_cons, kept_cons, ih]
      split <;> rfl

theorem kept_replicate (as : List α) : kept (List.replicate as.length true) as = as := by
  induction as with
  | nil => rfl
  | cons a as ih => rw [List.length_cons, List.replicate_succ, kept_cons, if_pos rfl, ih]

/-- What is kept does not depend on items behind the mask. -/
theorem kept_take (mask : List Bool) (as : List α) :
    kept mask (as.take mask.length) = kept mask as := by
  induction mask generalizing as with
  | nil => rfl
  | cons b mask ih =>
    cases as with
    | nil => rfl
    | cons a as => rw [List.length_cons, List.take_succ_cons, kept_cons, kept_cons, ih]

/-- An item that is kept comes behind as many as are kept before it. -/
theorem getElem?_kept {i : Nat} (h : mask[i]? = some true) (as : List α) :
    (kept mask as)[(mask.take i).countP id]? = as[i]? := by
  induction mask generalizing i as with
  | nil => cases h
  | cons b mask ih =>
    cases as with
    | nil => simp [kept]
    | cons a as =>
      cases i with
      | zero =>
        obtain rfl : b = true := by simpa using h
        rfl
      | succ i =>
        have hi := ih (by simpa using h) as
        rw [kept_cons, List.take_succ_cons, List.countP_cons]
        cases b with
        | false => simpa using hi
        | true => simpa using hi

end Kept

/-- The positions that a mask keeps. -/
def keptPositions (mask : List Bool) : List Int := kept mask (positions mask.length)

theorem picks_kept {α : Type} {items : List α} {mask : List Bool}
    (h : mask.length ≤ items.length) : Picks items (keptPositions mask) (kept mask items) := by
  have hall : (positions mask.length).map (fun i => items[i.toNat]?) =
      (items.take mask.length).map some := by
    refine List.ext_getElem? fun k => ?_
    by_cases hk : k < mask.length
    · have hk' : k < items.length := by omega
      simp [positions, hk, hk']
    · simp [positions, hk]
  rw [Picks, keptPositions, ← kept_map, ← kept_map, hall, ← kept_take mask (items.map some),
    List.map_take]

theorem idxOf_keptPositions {mask : List Bool} {i : Nat} (h : mask[i]? = some true) :
    (keptPositions mask)[(mask.take i).countP id]? = some (i : Int) ∧
      (keptPositions mask).idxOf (i : Int) = (mask.take i).countP id := by
  have hlt := (List.getElem?_eq_some_iff.1 h).1
  have hget : (keptPositions mask)[(mask.take i).countP id]? = some (i : Int) := by
    rw [keptPositions, getElem?_kept h]
    simp [positions, hlt]
  refine ⟨hget, ?_⟩
  have hnodup : (keptPositions mask).Nodup :=
    (nodup_positions _).sublist (kept_sublist _ _)
  obtain ⟨hk, hget⟩ := List.getElem?_eq_some_iff.1 hget
  rw [← hget]
  exact hnodup.idxOf_getElem _ hk

theorem mem_keptPositions {mask : List Bool} {i : Int} :
    i ∈ keptPositions mask ↔ ∃ k : Nat, i = k ∧ mask[k]? = some true := by
  constructor
  · intro hi
    have hpos := mem_positions.1 ((kept_sublist _ _).subset hi)
    refine ⟨i.toNat, (Int.toNat_of_nonneg hpos.1).symm, ?_⟩
    obtain ⟨p, hp, hpi⟩ := List.mem_filterMap.1 hi
    obtain ⟨b, j⟩ := p
    rw [Option.ite_none_right_eq_some, Option.some.injEq] at hpi
    obtain ⟨hb, rfl⟩ := hpi
    obtain ⟨k, hk, hget⟩ := List.mem_iff_getElem.1 hp
    simp only [List.getElem_zip, Prod.mk.injEq, positions, List.getElem_map,
      List.getElem_range] at hget
    obtain ⟨hbk, rfl⟩ := hget
    simp only [List.length_zip, Nat.lt_min] at hk
    rw [Int.ofNat_eq_natCast, Int.toNat_natCast, List.getElem?_eq_getElem hk.1, hbk]
    exact congrArg some hb
  · rintro ⟨k, rfl, hk⟩
    exact List.mem_of_getElem? (idxOf_keptPositions hk).1

/-- `part` is what `whole` has at the positions `keep`: their nodes and owners, and every edge
between two of them, whose ends are told by their places in `keep`. -/
structure Part.Keeps (whole part : Part) (keep : List Int) : Prop where
  order : keep.Sublist (positions whole.nodes.length)
  nodes : Picks whole.nodes keep part.nodes
  owners : Picks whole.owners keep part.owners
  edges : part.edges =
    (whole.edges.filter fun e => decide (e.source ∈ keep ∧ e.target ∈ keep)).map fun e =>
      ⟨keep.idxOf e.source, keep.idxOf e.target, e.kind⟩

theorem rank_eq {mask : List Bool} {i : Int} (h : i ∈ keptPositions mask) :
    rank mask i = .ok ((keptPositions mask).idxOf i) := by
  obtain ⟨k, rfl, hk⟩ := mem_keptPositions.1 h
  rw [rank, if_pos (Int.natCast_nonneg k), (idxOf_keptPositions hk).2, Int.toNat_natCast]
  rfl

theorem keptEdge_eq {mask : List Bool} {e : Edge} (hs : e.source ∈ positions mask.length)
    (ht : e.target ∈ positions mask.length) :
    keptEdge mask e = .ok (if e.source ∈ keptPositions mask ∧ e.target ∈ keptPositions mask then
      some ⟨(keptPositions mask).idxOf e.source, (keptPositions mask).idxOf e.target, e.kind⟩
      else none) := by
  have hmask : ∀ i ∈ positions mask.length,
      at? mask i = some (decide (i ∈ keptPositions mask)) := by
    intro i hi
    have hpos := mem_positions.1 hi
    have hlt : i.toNat < mask.length := by omega
    have hiff : i ∈ keptPositions mask ↔ mask[i.toNat] = true := by
      rw [mem_keptPositions, ← Option.some.injEq, ← List.getElem?_eq_getElem hlt]
      refine ⟨?_, fun h => ⟨i.toNat, (Int.toNat_of_nonneg hpos.1).symm, h⟩⟩
      rintro ⟨k, rfl, hk⟩
      simpa using hk
    rw [at?_of_mem hi, List.getElem?_eq_getElem hlt, Option.some.injEq, Bool.eq_iff_iff,
      decide_eq_true_eq]
    exact hiff.symm
  rw [keptEdge, hmask _ hs, hmask _ ht]
  by_cases hs' : e.source ∈ keptPositions mask
  · by_cases ht' : e.target ∈ keptPositions mask
    · simp only [hs', ht', decide_true, rank_eq hs', rank_eq ht', and_self, if_true]
    · simp only [hs', ht', decide_true, decide_false, and_false, if_false]
  · simp only [hs', decide_false, false_and, if_false]

theorem keptEdges_eq {mask : List Bool} {edges : List Edge} (h : InRange mask.length edges) :
    keptEdges mask edges = .ok ((edges.filter fun e =>
      decide (e.source ∈ keptPositions mask ∧ e.target ∈ keptPositions mask)).map fun e =>
        ⟨(keptPositions mask).idxOf e.source, (keptPositions mask).idxOf e.target, e.kind⟩) := by
  induction edges with
  | nil => rfl
  | cons e edges ih =>
    have he := h e (.head _)
    have hedge := keptEdge_eq (mem_positions.2 he.1) (mem_positions.2 he.2)
    have hrest := ih fun e he => h e (.tail _ he)
    rw [keptEdges, hedge, hrest]
    by_cases hk : e.source ∈ keptPositions mask ∧ e.target ∈ keptPositions mask
    · simp [hk]
    · simp [hk]

/-- A part whose nodes have owners can be cut down to what a mask keeps. -/
theorem restrict_keeps {p : Part} {mask : List Bool} (hmask : mask.length = p.nodes.length)
    (howners : p.nodes.length ≤ p.owners.length) (hedges : InRange p.nodes.length p.edges) :
    ∃ part, p.restrict mask = .ok part ∧ p.Keeps part (keptPositions mask) := by
  have hdrop : ¬ (mask.drop p.owners.length).any id := by
    rw [List.drop_eq_nil_of_le (by omega)]
    simp
  rw [← hmask] at hedges
  rw [Part.restrict, if_neg hdrop, keptEdges_eq hedges]
  refine ⟨_, rfl, ?_, ?_, ?_, rfl⟩
  · rw [keptPositions, hmask]
    exact kept_sublist _ _
  · exact picks_kept hmask.le
  · exact picks_kept (by omega)

namespace Part.Keeps

variable {whole part : Part} {keep : List Int}

theorem length_owners (h : whole.Keeps part keep) : part.owners.length = part.nodes.length :=
  h.owners.length_eq.trans h.nodes.length_eq.symm

theorem nodup_nodes (h : whole.Keeps part keep) (hnodes : whole.nodes.Nodup) :
    part.nodes.Nodup :=
  h.nodes.nodup hnodes ((nodup_positions _).sublist h.order) fun _ hi => h.order.subset hi

theorem inRange (h : whole.Keeps part keep) : InRange part.nodes.length part.edges := by
  rw [h.edges, h.nodes.length_eq]
  intro e' he'
  obtain ⟨e, he, rfl⟩ := List.mem_map.1 he'
  obtain ⟨hs, ht⟩ := of_decide_eq_true (List.mem_filter.1 he).2
  have hs := List.idxOf_lt_length_iff.2 hs
  have ht := List.idxOf_lt_length_iff.2 ht
  refine ⟨⟨?_, ?_⟩, ?_, ?_⟩ <;> dsimp only <;> omega

end Part.Keeps

/-! ## Near positions -/

/-- The calls of a graph, with the same calls seen from their targets if these are followed too. -/
def followed (withReverse : Bool) (edges : List Edge) : List Edge :=
  if withReverse then edges ++ edges.map Edge.flip else edges

/-- A position that can be reached from a root in at most so many steps. -/
def Near (edges : List Edge) (root : Int → Prop) (depth : Option Nat) (i : Int) : Prop :=
  ∃ r, root r ∧ ∃ n, (∀ d ∈ depth, n ≤ d) ∧ (arrowsOf edges).Walk n r i

/-- A position of a node that is one of the places. -/
def Marked (nodes places : List Location) (i : Int) : Prop :=
  i ∈ positions nodes.length ∧ ∃ l ∈ places, nodes[i.toNat]? = some l

theorem successors_flip (edges : List Edge) (i : Int) :
    successors (edges.map Edge.flip) i = predecessors edges i := by
  rw [successors, List.filterMap_map]
  rfl

theorem next_followed (withReverse : Bool) (edges : List Edge) (i : Int) :
    (arrowsOf (followed withReverse edges)).next i =
      successors edges i ++ (if withReverse then predecessors edges i else []) := by
  rw [next_arrowsOf, followed]
  cases withReverse with
  | false => simp
  | true =>
    rw [if_pos rfl, if_pos rfl, ← successors_flip]
    exact List.filterMap_append

theorem inRange_followed {n : Nat} {edges : List Edge} (h : InRange n edges)
    (withReverse : Bool) : InRange n (followed withReverse edges) := by
  cases withReverse with
  | false => exact h
  | true => exact inRange_apply h .both

theorem length_followed_le (withReverse : Bool) (edges : List Edge) :
    (followed withReverse edges).length ≤ 2 * edges.length := by
  cases withReverse with
  | false => rw [followed, if_neg Bool.false_ne_true]; omega
  | true => rw [followed, if_pos rfl, List.length_append, List.length_map]; omega

/-- A walk between nodes stays among the nodes. -/
theorem mem_positions_of_walk {n : Nat} {edges : List Edge} (h : InRange n edges) {m : Nat}
    {i j : Int} (hwalk : (arrowsOf edges).Walk m i j) (hi : i ∈ positions n) :
    j ∈ positions n := by
  refine hwalk.mem_of_closed (fun v _ w hw => ?_) hi
  obtain ⟨e, -, rfl⟩ := Arrows.mem_next.1 hw
  exact mem_positions.2 (h _ (List.get_mem edges e)).2

/-- As many rounds as a depth asks for are enough, and without a depth so are as many as there
can be levels. -/
theorem near_iff_rounds {edges : List Edge} {root : Int → Prop} {depth : Option Nat} {i : Int}
    (n : Nat) (withReverse : Bool) :
    Near (followed withReverse edges) root depth i ↔
      ∃ r, root r ∧ ∃ m ≤ roundsFor n edges (depth.map Int.ofNat),
        (arrowsOf (followed withReverse edges)).Walk m r i := by
  refine exists_congr fun r => and_congr_right fun _ => ?_
  cases depth with
  | some d => simp [roundsFor]
  | none =>
    constructor
    · rintro ⟨m, -, hwalk⟩
      -- a walk of any length can be made as short as there are arrows
      obtain ⟨way, hway, -⟩ := hwalk.exists_trail
      have hle : way.length ≤ (followed withReverse edges).length := hway.length_le
      have := length_followed_le withReverse edges
      exact ⟨way.length, by simp only [roundsFor, Option.map_none]; omega, hway.walk⟩
    · rintro ⟨m, -, hwalk⟩
      exact ⟨m, fun _ h => (nomatch h), hwalk⟩

theorem lastPosition?_eq_some_iff {nodes : List Location} (h : nodes.Nodup) {l : Location}
    {i : Int} : lastPosition? nodes l = some i ↔ ∃ k : Nat, i = k ∧ nodes[k]? = some l := by
  rw [lastPosition?, Option.map_eq_some_iff]
  constructor
  · rintro ⟨⟨l', k⟩, hf, rfl⟩
    have hk := List.mem_zipIdx_iff_getElem?.1 (List.mem_reverse.1 (List.mem_of_find?_eq_some hf))
    obtain rfl : l' = l := by simpa using List.find?_some hf
    exact ⟨k, rfl, hk⟩
  · rintro ⟨k, rfl, hk⟩
    obtain ⟨⟨l', j⟩, hf⟩ : ∃ c, nodes.zipIdx.reverse.find? (fun c => decide (c.1 = l)) =
        some c := by
      rw [← Option.isSome_iff_exists, List.find?_isSome]
      exact ⟨(l, k), List.mem_reverse.2 (List.mem_zipIdx_iff_getElem?.2 hk), by simp⟩
    have hj := List.mem_zipIdx_iff_getElem?.1 (List.mem_reverse.1 (List.mem_of_find?_eq_some hf))
    obtain rfl : l' = l := by simpa using List.find?_some hf
    obtain ⟨hjl, hj⟩ := List.getElem?_eq_some_iff.1 hj
    obtain ⟨hkl, hk⟩ := List.getElem?_eq_some_iff.1 hk
    obtain rfl : j = k := (h.getElem_inj_iff).1 (hj.trans hk.symm)
    exact ⟨_, hf, rfl⟩

theorem mem_roots_iff {nodes places : List Location} (h : nodes.Nodup) {i : Int} :
    i ∈ (places.filterMap (lastPosition? nodes)).eraseDups ↔ Marked nodes places i := by
  simp only [List.mem_eraseDups, List.mem_filterMap, lastPosition?_eq_some_iff h]
  constructor
  · rintro ⟨l, hl, k, rfl, hk⟩
    have hlt := (List.getElem?_eq_some_iff.1 hk).1
    exact ⟨mem_positions.2 ⟨by omega, by omega⟩, l, hl, hk⟩
  · rintro ⟨hi, l, hl, hk⟩
    exact ⟨l, hl, i.toNat, (Int.toNat_of_nonneg (mem_positions.1 hi).1).symm, hk⟩

/-- The mask of a search from some places keeps the positions near them. -/
theorem reachMask_near {nodes places : List Location} {edges : List Edge} (hnodes : nodes.Nodup)
    (hedges : InRange nodes.length edges) (hplaces : places ≠ []) (withReverse : Bool)
    (depth : Option Nat) :
    ∃ mask, reachMask nodes edges places withReverse (depth.map Int.ofNat) = .ok mask ∧
      mask.length = nodes.length ∧ ∀ i, i ∈ keptPositions mask ↔
        Near (followed withReverse edges) (Marked nodes places) depth i := by
  have hempty : ¬ places.isEmpty := by simpa using hplaces
  have hnext : (fun i => successors edges i ++ if withReverse then predecessors edges i else []) =
      (arrowsOf (followed withReverse edges)).next :=
    funext fun i => (next_followed withReverse edges i).symm
  simp only [reachMask, if_neg hempty, hnext]
  generalize hseen : within (arrowsOf (followed withReverse edges)).next _ _ _ = seen
  have hmem : ∀ i, i ∈ seen ↔
      Near (followed withReverse edges) (Marked nodes places) depth i := by
    intro i
    rw [← hseen, mem_within (fun _ hv => hv) fun v hv hl => absurd hv hl,
      near_iff_rounds nodes.length withReverse]
    simp only [mem_roots_iff hnodes]
  have hrange : ∀ i ∈ seen, i ∈ positions nodes.length := by
    intro i hi
    obtain ⟨r, hr, m, -, hwalk⟩ := (hmem i).1 hi
    exact mem_positions_of_walk (inRange_followed hedges withReverse) hwalk hr.1
  have hslots : ¬ seen.any fun i => (slot? nodes.length i).isNone := by
    simp only [List.any_eq_true, not_exists, not_and]
    intro i hi
    simp [slot?_of_mem (hrange i hi)]
  rw [if_neg hslots]
  refine ⟨_, rfl, by simp, fun i => ?_⟩
  simp only [← hmem, mem_keptPositions, List.getElem?_map, Option.map_eq_some_iff]
  constructor
  · rintro ⟨k, rfl, k', hk, hany⟩
    obtain ⟨hkl, rfl⟩ := List.getElem?_eq_some_iff.1 hk
    obtain ⟨j, hj, hjk⟩ := List.any_eq_true.1 hany
    rw [slot?_of_mem (hrange j hj), List.getElem_range, beq_iff_eq, Option.some.injEq] at hjk
    have := (mem_positions.1 (hrange j hj)).1
    obtain rfl : j = k := by omega
    exact hj
  · intro hi
    have hpos := mem_positions.1 (hrange i hi)
    refine ⟨i.toNat, (Int.toNat_of_nonneg hpos.1).symm, i.toNat, List.getElem?_range (by omega),
      List.any_eq_true.2 ⟨i, hi, ?_⟩⟩
    rw [slot?_of_mem (hrange i hi)]
    simp

/-! ## Subgraphs -/

theorem CallGraph.subgraph_eq {g : CallGraph} {roots : List Int} {places : List Location}
    {depth : Option Int} {withReverse : Bool} {mask : List Bool} {part : Part}
    {found : List (List Int) × List (Int × Int)}
    (hlimited : ¬ (roots.isEmpty && depth.isNone && !withReverse))
    (hplaces : itemsAt g.nodes roots = .ok places)
    (hmask : reachMask g.nodes g.edges places withReverse depth = .ok mask)
    (hpart : g.part.restrict mask = .ok part) (hfound : part.components = .ok found) :
    g.subgraph roots depth withReverse = .ok ⟨part.nodes, part.owners, part.edges, found.1,
      found.2, g.unresolved,
      some ⟨part.nodes.length, part.edges.length, g.unresolved.length⟩⟩ := by
  rw [CallGraph.subgraph, if_neg hlimited]
  simp only [hplaces, hmask, hpart, hfound, bind, Except.bind]
  rfl

/-- Roots are the positions of their places. -/
theorem marked_iff {nodes places : List Location} {roots : List Int} (hnodes : nodes.Nodup)
    (hroots : ∀ r ∈ roots, r ∈ positions nodes.length) (h : Picks nodes roots places) {i : Int} :
    Marked nodes places i ↔ i ∈ roots := by
  constructor
  · rintro ⟨hi, l, hl, hil⟩
    obtain ⟨r, hr, hrl⟩ := h.mem_iff.1 hl
    rwa [position_unique hnodes hi (hroots r hr) (hil.trans hrl.symm)]
  · intro hi
    have hpos := hroots i hi
    have hlt : i.toNat < nodes.length := by
      have := mem_positions.1 hpos
      omega
    have hget := List.getElem?_eq_getElem hlt
    exact ⟨hpos, _, h.mem_iff.2 ⟨i, hi, hget⟩, hget⟩

theorem CallGraph.subgraph_keeps {g : CallGraph} (hnodes : g.nodes.Nodup)
    (hedges : InRange g.nodes.length g.edges) (howners : g.nodes.length ≤ g.owners.length)
    {roots : List Int} (hne : roots ≠ []) (hroots : ∀ r ∈ roots, r ∈ positions g.nodes.length)
    (depth : Option Nat) (withReverse : Bool) :
    ∃ g' keep, g.subgraph roots (depth.map Int.ofNat) withReverse = .ok g' ∧
      g.part.Keeps g'.part keep ∧
      ∀ i, i ∈ keep ↔ Near (followed withReverse g.edges) (· ∈ roots) depth i := by
  obtain ⟨places, hplaces, hpicks⟩ := itemsAt_picks hroots
  have hplaces_ne : places ≠ [] := by
    rw [← List.length_pos_iff, hpicks.length_eq, List.length_pos_iff]
    exact hne
  obtain ⟨mask, hmask, hlength, hnear⟩ :=
    reachMask_near hnodes hedges hplaces_ne withReverse depth
  obtain ⟨part, hpart, hkeeps⟩ := restrict_keeps (p := g.part) hlength howners hedges
  obtain ⟨found, hfound⟩ := exists_components hkeeps.inRange
  refine ⟨_, _, subgraph_eq (by simp [hne]) hplaces hmask hpart hfound, hkeeps, fun i => ?_⟩
  simp only [hnear, Near, marked_iff hnodes hroots hpicks]

theorem keptPositions_replicate (n : Nat) :
    keptPositions (List.replicate n true) = positions n := by
  have hlength : n = (positions n).length := by simp [positions]
  rw [keptPositions, List.length_replicate]
  nth_rewrite 1 [hlength]
  exact kept_replicate (positions n)

/-- Without any root a limit on the depth alone takes nothing away. -/
theorem CallGraph.subgraph_rootless {g : CallGraph} (hedges : InRange g.nodes.length g.edges)
    (howners : g.nodes.length ≤ g.owners.length) (depth : Int) :
    ∃ g', g.subgraph [] (some depth) false = .ok g' ∧
      g.part.Keeps g'.part (positions g.nodes.length) := by
  have hlength : (List.replicate g.nodes.length true).length = g.nodes.length := by simp
  obtain ⟨part, hpart, hkeeps⟩ := restrict_keeps (p := g.part) hlength howners hedges
  rw [keptPositions_replicate] at hkeeps
  obtain ⟨found, hfound⟩ := exists_components hkeeps.inRange
  exact ⟨_, subgraph_eq (by simp) rfl rfl hpart hfound, hkeeps⟩

/-! ## Graphs from entry points -/

theorem build_restrict {ix : Index} {expand : Bool} {direction : Direction}
    {entryPoints : List Location} {mask : List Bool} {part : Part} (hentry : entryPoints ≠ [])
    (hmask : reachMask (wholePart ix expand direction).nodes (wholePart ix expand direction).edges
      entryPoints false none = .ok mask)
    (hpart : (wholePart ix expand direction).restrict mask = .ok part) (withComponents : Bool) :
    build ix ⟨expand, direction, entryPoints, withComponents⟩ =
      (if withComponents then part.components else .ok ([], [])).map fun found =>
        let unresolved := (outcomesOf ix expand).flatMap Prod.snd
        ⟨part.nodes, part.owners, part.edges, found.1, found.2, unresolved,
          some ⟨part.nodes.length, part.edges.length, unresolved.length⟩⟩ := by
  have hempty : ¬ entryPoints.isEmpty := by simpa using hentry
  simp only [wholePart, outcomesOf, List.flatMap_map] at hmask hpart
  simp only [build, buildFrom, outcomesOf, List.flatMap_map, if_neg hempty, hmask, hpart, bind,
    Except.bind]
  cases withComponents with
  | false => rfl
  | true => cases part.components <;> rfl

theorem inRange_wholePart (ix : Index) (expand : Bool) (direction : Direction) :
    InRange (wholePart ix expand direction).nodes.length (wholePart ix expand direction).edges :=
  inRange_apply (inRange_outcomesOf ix expand) direction

theorem nodup_wholePart (ix : Index) (expand : Bool) (direction : Direction) :
    (wholePart ix expand direction).nodes.Nodup := by
  rw [wholePart, (nodesOf_spec ix.items).1]
  exact nodup_eraseDups _

theorem length_owners_wholePart (ix : Index) (expand : Bool) (direction : Direction) :
    (wholePart ix expand direction).owners.length =
      (wholePart ix expand direction).nodes.length := by
  simp [wholePart]

/-- The components of a part with edges between its nodes are found if they are asked for. -/
theorem exists_found {p : Part} (h : InRange p.nodes.length p.edges) (withComponents : Bool) :
    ∃ found, (if withComponents then p.components else .ok ([], [])) = .ok found ∧
      (found = ([], []) ∨ p.components = .ok found) := by
  cases withComponents with
  | false => exact ⟨_, rfl, .inl rfl⟩
  | true =>
    obtain ⟨found, hfound⟩ := exists_components h
    exact ⟨found, hfound, .inr hfound⟩

/-- From entry points the graph of an index keeps what can be reached from them. -/
theorem build_keeps (ix : Index) (expand : Bool) (direction : Direction)
    {entryPoints : List Location} (hentry : entryPoints ≠ []) (withComponents : Bool) :
    ∃ g keep, build ix ⟨expand, direction, entryPoints, withComponents⟩ = .ok g ∧
      (wholePart ix expand direction).Keeps g.part keep ∧
      (g.components = [] ∧ g.componentEdges = [] ∨
        g.part.components = .ok (g.components, g.componentEdges)) ∧
      ∀ i, i ∈ keep ↔ Near (wholePart ix expand direction).edges
        (Marked (wholePart ix expand direction).nodes entryPoints) none i := by
  have hedges := inRange_wholePart ix expand direction
  obtain ⟨mask, hmask, hlength, hnear⟩ :=
    reachMask_near (nodup_wholePart ix expand direction) hedges hentry false none
  obtain ⟨part, hpart, hkeeps⟩ :=
    restrict_keeps hlength (length_owners_wholePart ix expand direction).ge hedges
  obtain ⟨found, hfound, hcases⟩ := exists_found hkeeps.inRange withComponents
  have hg := build_restrict hentry hmask hpart withComponents
  rw [hfound] at hg
  refine ⟨_, _, hg, hkeeps, ?_, hnear⟩
  exact hcases.imp (fun h => by rw [h]; exact ⟨rfl, rfl⟩) id

/-- A graph with distinct nodes, each of which has an owner, edges between its nodes, and either
its components with the edges between them or none. -/
structure CallGraph.Regular (g : CallGraph) : Prop where
  nodes : g.nodes.Nodup
  owners : g.owners.length = g.nodes.length
  edges : InRange g.nodes.length g.edges
  components : g.components = [] ∧ g.componentEdges = [] ∨
    g.part.components = .ok (g.components, g.componentEdges)

/-- Every index has a call graph, however it is asked for. -/
theorem build_regular (ix : Index) (o : BuildOptions) : ∃ g, build ix o = .ok g ∧ g.Regular := by
  obtain ⟨expand, direction, entryPoints, withComponents⟩ := o
  by_cases hentry : entryPoints = []
  · subst hentry
    have hedges := inRange_wholePart ix expand direction
    obtain ⟨found, hfound, hcases⟩ := exists_found hedges withComponents
    have hg := build_eq ix expand direction withComponents
    rw [hfound] at hg
    refine ⟨_, hg, nodup_wholePart ix expand direction,
      length_owners_wholePart ix expand direction, hedges, ?_⟩
    exact hcases.imp (fun h => by rw [h]; exact ⟨rfl, rfl⟩) id
  · obtain ⟨g, keep, hg, hkeeps, hcases, -⟩ :=
      build_keeps ix expand direction hentry withComponents
    exact ⟨g, hg, hkeeps.nodup_nodes (nodup_wholePart ix expand direction),
      hkeeps.length_owners, hkeeps.inRange, hcases⟩

/-- Components that are asked for are those of the graph. -/
theorem components_of_build {ix : Index} {expand : Bool} {direction : Direction}
    {entryPoints : List Location} {g : CallGraph}
    (h : build ix ⟨expand, direction, entryPoints, true⟩ = .ok g) :
    g.part.components = .ok (g.components, g.componentEdges) := by
  simp only [build, buildFrom, if_true] at h
  split at h
  · obtain ⟨part, -, h⟩ := ok_of_bind h
    obtain ⟨found, hfound, h⟩ := ok_of_bind h
    obtain rfl := Except.ok.inj h
    exact hfound
  · obtain ⟨mask, -, h⟩ := ok_of_bind h
    obtain ⟨part, -, h⟩ := ok_of_bind h
    obtain ⟨found, hfound, h⟩ := ok_of_bind h
    obtain rfl := Except.ok.inj h
    exact hfound

theorem Part.condensed {p : Part} (h : InRange p.nodes.length p.edges)
    {components : List (List Int)} {pairs : List (Int × Int)}
    (hfound : p.components = .ok (components, pairs)) :
    componentsOf p.nodes.length p.edges = .ok components ∧
      condense components p.edges = .ok pairs ∧
      Condensed p.nodes.length p.edges components pairs := by
  obtain ⟨components', pairs', hcomponents, hpairs, hcondensed⟩ := exists_condensed h
  simp only [Part.components, hcomponents, hpairs] at hfound
  obtain ⟨rfl, rfl⟩ := Prod.mk.inj (Except.ok.inj hfound)
  exact ⟨hcomponents, hpairs, hcondensed⟩

/-- The components of a graph that has been built are there or are found. -/
theorem CallGraph.Regular.condensed {g : CallGraph} (h : g.Regular) :
    ∃ components pairs, g.componentList = .ok components ∧
      condense components g.edges = .ok pairs ∧ g.componentEdgeList components = .ok pairs ∧
      Condensed g.nodes.length g.edges components pairs := by
  obtain ⟨hc, he⟩ | hstored := h.components
  · obtain ⟨components, pairs, hcomponents, hpairs, hcondensed⟩ := exists_condensed h.edges
    refine ⟨components, pairs, ?_, hpairs, ?_, hcondensed⟩
    · rw [componentList, hc]
      exact hcomponents
    · rw [componentEdgeList, he]
      exact hpairs
  · have ⟨hcomponents, hpairs, hcondensed⟩ := Part.condensed h.edges hstored
    refine ⟨g.components, g.componentEdges, ?_, hpairs, ?_, hcondensed⟩
    · rw [componentList]
      split
      · exact hcomponents
      · rfl
    · rw [componentEdgeList]
      split
      · exact hpairs
      · rfl

/-- Let the nodes of a graph be distinct and have owners, and the edges be `InRange`. Then
`subgraph` `Keeps` what is `Near` its roots: the positions that a root leads to in at most `depth`
steps, along the edges that are `followed`, in their order and with their owners, and the edges
between these, in their order and with their kinds. In the same way `build` from entry points keeps
what these lead to in the graph without entry points. -/
theorem subgraph_exact :
    (∀ g : CallGraph, g.nodes.Nodup → InRange g.nodes.length g.edges →
      g.nodes.length ≤ g.owners.length → ∀ roots : List Int, roots ≠ [] →
      (∀ r ∈ roots, r ∈ positions g.nodes.length) → ∀ (depth : Option Nat) (withReverse : Bool),
      ∃ g' keep, g.subgraph roots (depth.map Int.ofNat) withReverse = .ok g' ∧
        g.part.Keeps g'.part keep ∧
        ∀ i, i ∈ keep ↔ Near (followed withReverse g.edges) (· ∈ roots) depth i) ∧
    ∀ (ix : Index) (expand : Bool) (direction : Direction) (entryPoints : List Location)
      (withComponents : Bool), entryPoints ≠ [] →
      ∃ whole g' keep, build ix ⟨expand, direction, [], withComponents⟩ = .ok whole ∧
        build ix ⟨expand, direction, entryPoints, withComponents⟩ = .ok g' ∧
        whole.part.Keeps g'.part keep ∧
        ∀ i, i ∈ keep ↔ Near whole.edges (Marked whole.nodes entryPoints) none i := by
  constructor
  · intro g hnodes hedges howners roots hne hroots depth withReverse
    exact g.subgraph_keeps hnodes hedges howners hne hroots depth withReverse
  · intro ix expand direction entryPoints withComponents hentry
    obtain ⟨found, hfound, -⟩ := exists_found (inRange_wholePart ix expand direction) withComponents
    obtain ⟨g', keep, hg', hkeeps, -, hnear⟩ :=
      build_keeps ix expand direction hentry withComponents
    have hg := build_eq ix expand direction withComponents
    rw [hfound] at hg
    exact ⟨_, g', keep, hg, hg', hkeeps, hnear⟩

/-- Three functions: the first calls the second and the third, and the second calls the third. -/
def detour : Index :=
  let line (n : Int) : Location := ⟨.here, n, 0, n, 9, 10 * n, 10 * n + 9⟩
  .linked (((Linked.empty.addDefinition (.function "a")
      ⟨line 1, none, [⟨.function "b", line 2⟩, ⟨.function "c", line 3⟩], none, none⟩).addDefinition
    (.function "b") ⟨line 4, none, [⟨.function "c", line 5⟩], none, none⟩).addDefinition
    (.function "c") ⟨line 6, none, [], none, none⟩)

/-- One step along or against a call does not lead from the second of four functions to the third,
and from the second of three functions no way leads to the first. -/
theorem subgraph_exact_diamond_detour :
    (diamond.subgraph [1] (some 1) true).map CallGraph.part = .ok
      ⟨[0, 1, 3].map fun line => ⟨.here, line, 0, line, 0, 0, 0⟩,
       [.function "a", .function "b", .function "d"],
       [⟨0, 1, .may⟩, ⟨0, 1, .may⟩, ⟨1, 2, .must⟩, ⟨2, 0, .must⟩]⟩ ∧
    ¬ Near (followed true diamond.edges) (· ∈ [1]) (some 1) 2 ∧
    (build detour ⟨true, .forward, [⟨.here, 4, 0, 4, 9, 40, 49⟩], false⟩).map CallGraph.part = .ok
      ⟨[⟨.here, 4, 0, 4, 9, 40, 49⟩, ⟨.here, 6, 0, 6, 9, 60, 69⟩],
       [.function "b", .function "c"], [⟨0, 1, .must⟩]⟩ ∧
    ∃ whole, build detour ⟨true, .forward, [], false⟩ = .ok whole ∧
      ¬ Near whole.edges (Marked whole.nodes [⟨.here, 4, 0, 4, 9, 40, 49⟩]) none 0 := by
  have hsub : (diamond.subgraph [1] (some 1) true).map CallGraph.part = .ok
      ⟨[0, 1, 3].map fun line => ⟨.here, line, 0, line, 0, 0, 0⟩,
       [.function "a", .function "b", .function "d"],
       [⟨0, 1, .may⟩, ⟨0, 1, .may⟩, ⟨1, 2, .must⟩, ⟨2, 0, .must⟩]⟩ := by rfl
  have hbuild : (build detour ⟨true, .forward, [⟨.here, 4, 0, 4, 9, 40, 49⟩], false⟩).map
      CallGraph.part = .ok
      ⟨[⟨.here, 4, 0, 4, 9, 40, 49⟩, ⟨.here, 6, 0, 6, 9, 60, 69⟩],
       [.function "b", .function "c"], [⟨0, 1, .must⟩]⟩ := by decide +kernel
  have hfirst : (build detour ⟨true, .forward, [], false⟩).map (·.nodes[0]?) =
      .ok (some ⟨.here, 1, 0, 1, 9, 10, 19⟩) := by decide +kernel
  obtain ⟨hgraphs, hindexes⟩ := subgraph_exact
  refine ⟨hsub, fun h => ?_, hbuild, ?_⟩
  · obtain ⟨g', keep, hg', hkeeps, hnear⟩ := hgraphs diamond (by decide) (by decide) (by decide)
      [1] (by decide) (by decide) (some 1) true
    change diamond.subgraph [1] (some 1) true = .ok g' at hg'
    rw [hg'] at hsub
    rw [Except.ok.inj hsub] at hkeeps
    have := hkeeps.nodes.mem_iff.2 ⟨2, (hnear 2).2 h, rfl⟩
    revert this
    decide
  · obtain ⟨whole, g', keep, hwhole, hg', hkeeps, hnear⟩ := hindexes detour true .forward
      [⟨.here, 4, 0, 4, 9, 40, 49⟩] false (by decide)
    refine ⟨whole, hwhole, fun h => ?_⟩
    rw [hg'] at hbuild
    rw [hwhole] at hfirst
    rw [Except.ok.inj hbuild] at hkeeps
    have := hkeeps.nodes.mem_iff.2 ⟨0, (hnear 0).2 h, Except.ok.inj hfirst⟩
    revert this
    decide

end CallAtlas.Graph
