import CallAtlas.Language.Python
import CallAtlas.Proofs.Graph.Traversal
import CallAtlas.Proofs.Service.Tools

/-! # The order of definitions

The service lists all definitions backward, from the callees up to the callers, or forward, from the
callers down to the callees. The order is breadth-first, so it need not respect a call: it does iff
the first way to the end that should be listed first comes before the first way to the other
(`order_topological_iff`). -/

namespace CallAtlas.Service

open CallAtlas.Graph

/-- A call from one component to another, with its caller and its callee. -/
structure Crosses (g : CallGraph) (e : Edge) (caller callee : Location) : Prop where
  mem : e ∈ g.edges
  caller : g.nodes[e.source.toNat]? = some caller
  callee : g.nodes[e.target.toNat]? = some callee
  apart : ∀ c ∈ g.components, ¬ (e.source ∈ c ∧ e.target ∈ c)

/-- Without a call graph of before, `order` lists all definitions by the first ways to them
(`Ordered`): backward from those that are called back by everything they call, in one step or more,
and forward from those that call back everything they are called by. For a call that `Crosses`
between components, backward the callee comes before the caller iff its way is before that to the
caller in the order `Shortlex`, and forward the caller comes before the callee iff its way is before
that to the callee. -/
theorem order_topological_iff (s : Service) (st : Setup) (hsetup : s.setup = some st)
    (hgraph : s.graph = none) :
    ∃ g, build st.indexer.index ⟨true, .forward, [], true⟩ = .ok g ∧
      (∃ listed way, (order .backward).on s = (.ok listed, { s with graph := some g }) ∧
        Ordered g .backward listed way ∧
        ∀ e caller callee, Crosses g e caller callee →
          (listed.idxOf callee < listed.idxOf caller ↔
            List.Shortlex (· < ·) (way e.target) (way e.source))) ∧
      ∃ listed way, (order .forward).on s = (.ok listed, { s with graph := some g }) ∧
        Ordered g .forward listed way ∧
        ∀ e caller callee, Crosses g e caller callee →
          (listed.idxOf caller < listed.idxOf callee ↔
            List.Shortlex (· < ·) (way e.source) (way e.target)) := by
  obtain ⟨g, hbuild, hedges, hordered⟩ := build_ordered st.indexer.index true .forward
  have hends : ∀ e ∈ g.edges, e.source ∈ positions g.nodes.length ∧
      e.target ∈ positions g.nodes.length := fun e he =>
    ⟨mem_positions.2 (hedges e he).1, mem_positions.2 (hedges e he).2⟩
  refine ⟨g, hbuild, ?_, ?_⟩
  · obtain ⟨listed, way, hlisted, hord⟩ := hordered .backward (by decide)
    refine ⟨listed, way, on_order hsetup hgraph hbuild hlisted, hord, fun e caller callee he => ?_⟩
    exact hord.before _ (hends e he.mem).2 _ (hends e he.mem).1 _ _ he.callee he.caller
  · obtain ⟨listed, way, hlisted, hord⟩ := hordered .forward (by decide)
    refine ⟨listed, way, on_order hsetup hgraph hbuild hlisted, hord, fun e caller callee he => ?_⟩
    exact hord.before _ (hends e he.mem).1 _ (hends e he.mem).2 _ _ he.caller he.callee

/-- The call graph of three functions, the first of which calls both others and the second the
third. -/
def detourGraph : CallGraph :=
  ⟨[⟨.here, 1, 0, 1, 9, 10, 19⟩, ⟨.here, 4, 0, 4, 9, 40, 49⟩, ⟨.here, 6, 0, 6, 9, 60, 69⟩],
    [.function "a", .function "b", .function "c"],
    [⟨0, 1, .must⟩, ⟨0, 2, .must⟩, ⟨1, 2, .must⟩], [[2], [1], [0]], [(1, 0), (2, 0), (2, 1)], [],
    some ⟨3, 3, 0⟩⟩

theorem build_detour : build detour ⟨true, .forward, [], true⟩ = .ok detourGraph := by
  have hcross : crossings [[2], [1], [0]] (wholePart detour true .forward).edges =
      .ok [(2, 1), (2, 0), (1, 0)] := by decide +kernel
  have hpairs : condense [[2], [1], [0]] (wholePart detour true .forward).edges =
      .ok [(1, 0), (2, 0), (2, 1)] := condense_eq hcross (by decide) (by decide)
  refine (build_eq_ok (by decide +kernel) hpairs).trans ?_
  decide +kernel

def detourService : Service :=
  { Service.start (.empty []) with
    setup := some ⟨{ Indexer.start Language.python .linked true with index := detour },
      .here, .document, 0⟩ }

/-- Backward the first function comes before the second, which it calls: both are one step from the
third, and of the calls to the third that of the first function is met first. -/
theorem order_topological_iff_detour :
    Crosses detourGraph ⟨0, 1, .must⟩ ⟨.here, 1, 0, 1, 9, 10, 19⟩ ⟨.here, 4, 0, 4, 9, 40, 49⟩ ∧
    ∃ way : Int → List Nat,
      (order .backward).on detourService = (.ok
        [⟨.here, 6, 0, 6, 9, 60, 69⟩, ⟨.here, 1, 0, 1, 9, 10, 19⟩, ⟨.here, 4, 0, 4, 9, 40, 49⟩],
        { detourService with graph := some detourGraph }) ∧
      FirstWay (predecessors detourGraph.edges) [2] (way 0) 0 ∧
      FirstWay (predecessors detourGraph.edges) [2] (way 1) 1 ∧
      ¬ List.Shortlex (· < ·) (way 1) (way 0) := by
  have hcross : Crosses detourGraph ⟨0, 1, .must⟩ ⟨.here, 1, 0, 1, 9, 10, 19⟩
      ⟨.here, 4, 0, 4, 9, 40, 49⟩ := ⟨by decide, rfl, rfl, by decide⟩
  obtain ⟨g, hg, ⟨listed, way, hon, hord, hiff⟩, -⟩ := order_topological_iff detourService _ rfl rfl
  obtain rfl : g = detourGraph := Except.ok.inj (hg.symm.trans build_detour)
  have hlisted : detourGraph.traverse .backward none = .ok
      [⟨.here, 6, 0, 6, 9, 60, 69⟩, ⟨.here, 1, 0, 1, 9, 10, 19⟩, ⟨.here, 4, 0, 4, 9, 40, 49⟩] := by
    decide
  have hanswer := @on_order detourService _ _ rfl rfl hg _ _ hlisted
  rw [hon, Prod.mk.injEq, Except.ok.injEq] at hanswer
  obtain ⟨rfl, -⟩ := hanswer
  refine ⟨hcross, way, hon, hord.first 0 (by decide), hord.first 1 (by decide), fun hbefore => ?_⟩
  exact absurd ((hiff _ _ _ hcross).2 hbefore) (by decide)

end CallAtlas.Service
