import CallAtlas.Proofs.Graph.Traversal
import CallAtlas.Proofs.Service.Requests

/-! # The call graph that is remembered

The call graph is built for the first question about it and then remembered, whatever is set up
later. So a question is answered about the index that was set up when the first question was asked,
and not about the one that is set up now (`ask_eq_onIndex_iff`), until the graph is forgotten. -/

namespace CallAtlas.Service

open CallAtlas.Graph

variable {s : Service} {st : Setup}

/-! ## Questions -/

namespace Question

/-- The answer that a call graph gives. -/
def about (g : CallGraph) : Question → Except Graph.Error Reply
  | .overview => (overviewOf g).map .overview
  | .part roots depth => (g.subgraph (positionsAmong g roots) (some depth) false).map .part
  | .routes start goal k mode => (routesIn g start goal k mode).map .routes
  | .order d => (g.traverse d none).map .order

/-- The answer that the call graph of an index gives. -/
def onIndex (q : Question) (ix : Index) : Except ServiceError Reply :=
  (build ix ⟨true, .forward, [], true⟩ >>= q.about).mapError .graph

end Question

theorem on_map_lift {α : Type} (answer : CallGraph → Except Graph.Error α) (f : α → Reply) :
    (f <$> (do lift .graph (answer (← callGraph)) : Tool α)).on s =
      (do lift .graph ((answer (← callGraph)).map f) : Tool Reply).on s := by
  rw [on_map, on_bind, on_bind]
  rcases callGraph.on s with ⟨e | g, s'⟩
  · rfl
  · simp only [on_lift]
    cases answer g <;> rfl

/-- Every question is answered by the call graph. -/
theorem Question.on_ask (q : Question) :
    q.ask.on s = (do lift .graph (q.about (← callGraph)) : Tool Reply).on s := by
  cases q <;> exact on_map_lift _ _

/-- Every index has a call graph. -/
theorem exists_build (ix : Index) : ∃ g, build ix ⟨true, .forward, [], true⟩ = .ok g := by
  obtain ⟨g, hg, -⟩ := build_ordered ix true .forward
  exact ⟨g, hg⟩

theorem Question.onIndex_of_build {ix : Index} {g : CallGraph}
    (h : build ix ⟨true, .forward, [], true⟩ = .ok g) (q : Question) :
    q.onIndex ix = (q.about g).mapError .graph := by
  rw [onIndex, h]
  rfl

/-- A graph that is remembered answers, whatever is set up. -/
theorem Question.on_ask_of_graph {g : CallGraph} (h : s.graph = some g) (q : Question) :
    q.ask.on s = ((q.about g).mapError .graph, s) := by
  rw [on_ask, on_bind, callGraph, on_bind, on_get]
  simp only [h, on_pure, on_lift]

/-- Without a graph, that of the index is built and remembered. -/
theorem Question.on_ask_of_none {g : CallGraph} (h : s.graph = none) (hst : s.setup = some st)
    (hg : build st.indexer.index ⟨true, .forward, [], true⟩ = .ok g) (q : Question) :
    q.ask.on s = ((q.about g).mapError .graph, { s with graph := some g }) := by
  rw [on_ask, on_bind, on_callGraph hst h hg]
  simp only [on_lift]

theorem Question.on_ask_of_absent (h : s.graph = none) (hst : s.setup = none) (q : Question) :
    q.ask.on s = (.error .notSetUp, s) := by
  rw [on_ask, on_bind, callGraph, on_bind, on_get]
  simp only [h, index, on_bind, on_current, hst]

/-! ## Requests about the call graph -/

/-- A request to a service that is asked about the call graph: anything happens to its files, a
repository is set up, a question is asked, or the graph is forgotten. -/
def Request.AboutGraph : Request → Prop
  | .change _ | .setUp .. | .ask _ | .clearGraph => True
  | _ => False

/-- The index of the repository that is set up. -/
def index? (s : Service) : Option Index := s.setup.map fun st => st.indexer.index

/-- The index that was first asked about, after a request before which the service was `s`. -/
def Request.asked (s : Service) (before : Option Index) : Request → Option Index
  | .ask _ => before <|> s.index?
  | .clearGraph => none
  | _ => before

/-- The index that was set up when the first question since the graph was last forgotten was
asked. -/
def firstAsked [Library] (parse : Parser) (files : Files) (requests : List Request) :
    Option Index :=
  (requests.foldl (fun p r => (((r.tool parse).on p.1).2, r.asked p.1 p.2)) (start files, none)).2

/-- The service remembers the call graph of an index, or none. -/
def Remembers (s : Service) (asked : Option Index) : Prop :=
  s.graph.map Except.ok = asked.map fun ix => build ix ⟨true, .forward, [], true⟩

theorem Remembers.tool [Library] {asked : Option Index} (h : s.Remembers asked) (parse : Parser)
    {r : Request} (hr : r.AboutGraph) : ((r.tool parse).on s).2.Remembers (r.asked s asked) := by
  cases r with
  | change files => exact h
  | setUp repo language choice =>
    -- a set-up replaces the repository and changes files, but the graph stays
    have hleft : Indifferent fun t => t.graph = s.graph := ⟨fun _ _ h => h, fun _ _ _ _ h => h⟩
    have hgraph : ((Request.tool parse (.setUp repo language choice)).on s).2.graph = s.graph :=
      (hleft.keeps_setUp parse repo language choice).discard s rfl
    rw [Remembers, hgraph]
    exact h
  | clearGraph => rfl
  | ask q =>
    -- only the first question builds a graph, and for that a repository has to be set up
    rw [Remembers] at h
    rw [Request.tool, snd_on_discard]
    cases asked with
    | some ix =>
      obtain ⟨g, hg, hix⟩ := Option.map_eq_some_iff.1 h
      rw [q.on_ask_of_graph hg, Remembers, hg]
      exact congrArg some hix
    | none =>
      have hnone : s.graph = none := Option.map_eq_none_iff.1 h
      cases hst : s.setup with
      | none =>
        rw [q.on_ask_of_absent hnone hst]
        simp [Remembers, Request.asked, index?, hst, hnone]
      | some st =>
        obtain ⟨g, hg⟩ := exists_build st.indexer.index
        rw [q.on_ask_of_none hnone hst hg]
        simp [Remembers, Request.asked, index?, hst, hg]
  | _ => exact hr.elim

/-- The service and the index that was first asked about go side by side. -/
theorem Remembers.serve [Library] {asked : Option Index} (h : s.Remembers asked) (parse : Parser)
    {requests : List Request} (hr : ∀ r ∈ requests, r.AboutGraph) :
    (Service.serve parse s requests).Remembers (requests.foldl
      (fun p r => (((r.tool parse).on p.1).2, r.asked p.1 p.2)) (s, asked)).2 := by
  induction requests generalizing s asked with
  | nil => exact h
  | cons r requests ih =>
    rw [List.forall_mem_cons] at hr
    exact ih (h.tool parse hr.1) hr.2

/-- The service remembers the call graph of the index that was first asked about. -/
theorem remembers_attend [Library] (parse : Parser) (files : Files) {requests : List Request}
    (hr : ∀ r ∈ requests, r.AboutGraph) :
    (attend parse files requests).Remembers (firstAsked parse files requests) :=
  have hstart : (start files).Remembers none := rfl
  hstart.serve parse hr

/-- A question is answered about the index whose graph is remembered, or else about the index that
is set up. -/
theorem Remembers.answer {asked : Option Index} (h : s.Remembers asked) (q : Question) :
    (q.ask.on s).1 = (asked <|> s.index?).elim (.error .notSetUp) q.onIndex := by
  rw [Remembers] at h
  cases asked with
  | some ix =>
    obtain ⟨g, hg, hix⟩ := Option.map_eq_some_iff.1 h
    rw [q.on_ask_of_graph hg]
    exact (q.onIndex_of_build hix.symm).symm
  | none =>
    have hnone : s.graph = none := Option.map_eq_none_iff.1 h
    cases hst : s.setup with
    | none =>
      rw [q.on_ask_of_absent hnone hst]
      simp [index?, hst]
    | some st =>
      obtain ⟨g, hg⟩ := exists_build st.indexer.index
      rw [q.on_ask_of_none hnone hst hg]
      simp [index?, hst, q.onIndex_of_build hg]

/-- After all requests `AboutGraph`, a question is answered about the index that was `firstAsked`
about, if there is one, and else about the index that is set up (`index?`). So it is answered as
`Question.onIndex` of the index that is set up iff the index that was first asked about, if there is
one, has the same answer. -/
theorem ask_eq_onIndex_iff [Library] (parse : Parser) (files : Files) {requests : List Request}
    (hr : ∀ r ∈ requests, r.AboutGraph) (q : Question) :
    (q.ask.on (attend parse files requests)).1 =
        ((firstAsked parse files requests <|> (attend parse files requests).index?).elim
          (.error .notSetUp) q.onIndex) ∧
      ∀ ix ∈ (attend parse files requests).index?,
        ((q.ask.on (attend parse files requests)).1 = q.onIndex ix ↔
          ∀ old ∈ firstAsked parse files requests, q.onIndex old = q.onIndex ix) := by
  have hanswer := (remembers_attend parse files hr).answer q
  refine ⟨hanswer, fun ix hix => ?_⟩
  rw [hanswer, Option.mem_def.1 hix]
  cases firstAsked parse files requests with
  | some old => simp
  | none => simp

/-- In one direction, the call graph of an index lists the places of its definitions. -/
theorem exists_traverse (ix : Index) {d : Direction} (hd : d ≠ .both) :
    ∃ g listed, build ix ⟨true, .forward, [], true⟩ = .ok g ∧ g.traverse d none = .ok listed ∧
      listed.Perm
        (ix.items.flatMap fun e => e.2.definitions.map Definition.location).eraseDups := by
  obtain ⟨g, hg, -, hordered⟩ := build_ordered ix true .forward
  obtain ⟨listed, way, hlisted, hord⟩ := hordered d hd
  exact ⟨g, listed, hg, hlisted, nodes_of_build hg ▸ hord.perm⟩

/-- Asked in one direction, an index answers with the places of its definitions. -/
theorem onIndex_order (ix : Index) {d : Direction} (hd : d ≠ .both) :
    ∃ listed, (Question.order d).onIndex ix = .ok (.order listed) ∧
      listed.Perm
        (ix.items.flatMap fun e => e.2.definitions.map Definition.location).eraseDups := by
  obtain ⟨g, listed, hg, hlisted, hperm⟩ := exists_traverse ix hd
  refine ⟨listed, ?_, hperm⟩
  rw [Question.onIndex_of_build hg, Question.about, hlisted]
  rfl

/-! A repository with one function is set up and asked about, and then one without any file is set
up. -/

def askAndMove : List Request := [.ask (.order .backward), .setUp (.ofText "b") "python" .document]

/-- The service after the second repository has been set up. -/
def movedService : Service :=
  letI := Library.standard
  attend (fun _ => twinTree) (.empty []) (setUpFirst ++ askAndMove)

theorem items_index?_moved : movedService.index?.map Index.items = some [] := by
  let _ := Library.standard
  obtain ⟨hsetup, hgraph, hcache, hitems⟩ : firstTwin.setup.isSome = true ∧
      firstTwin.graph.isNone = true ∧
      firstTwin.files.pathExists (cachePath (.ofText "b") .document) = false ∧
      ((Indexer.start Language.python .linked true).indexProject (fun _ => twinTree)
        firstTwin.files (.ofText "b")).1.index.items = [] := by decide +kernel
  rw [movedService, attend, serve_append, ← attend, ← firstTwin, askAndMove, serve_cons, serve_cons,
    serve_nil]
  generalize firstTwin = s at hsetup hgraph hcache hitems ⊢
  obtain ⟨st, hst⟩ := Option.isSome_iff_exists.1 hsetup
  obtain ⟨g, hg⟩ := exists_build st.indexer.index
  rw [Request.tool, Request.tool, snd_on_discard, snd_on_discard,
    Question.on_ask_of_none (Option.isNone_iff_eq_none.1 hgraph) hst hg, on_setUp rfl]
  simp only [cacheFormat, lift, pure_bind, hcache, Bool.false_eq_true, if_false, on_bind_pure,
    index?, setup_fillCache, Option.map_some, hitems]

/-- The order is still that of the first repository, though the second has no definitions. -/
theorem ask_eq_onIndex_iff_moved :
    letI := Library.standard
    (∀ r ∈ setUpFirst ++ askAndMove, r.AboutGraph) ∧
    ∃ ix ∈ movedService.index?, ((Question.order .backward).ask.on movedService).1 ≠
      (Question.order .backward).onIndex ix := by
  let _ := Library.standard
  have hr : ∀ r ∈ setUpFirst ++ askAndMove, r.AboutGraph := by
    simp [setUpFirst, askAndMove, Request.AboutGraph]
  obtain ⟨ix, hix, hnone⟩ := Option.map_eq_some_iff.1 items_index?_moved
  have hfirst : (firstAsked (fun _ => twinTree) (.empty []) (setUpFirst ++ askAndMove)).map
      (fun old => (old.items.flatMap fun e =>
        e.2.definitions.map Definition.location).eraseDups.length) = some 1 := by decide +kernel
  obtain ⟨old, hold, hone⟩ := Option.map_eq_some_iff.1 hfirst
  refine ⟨hr, ix, hix, fun hsame => ?_⟩
  have hequal := ((ask_eq_onIndex_iff _ _ hr _).2 ix hix).1 hsame old hold
  obtain ⟨listed, honIndex, hperm⟩ := @onIndex_order old .backward nofun
  obtain ⟨listed', honIndex', hperm'⟩ := @onIndex_order ix .backward nofun
  rw [honIndex, honIndex', Except.ok.injEq, Reply.order.injEq] at hequal
  have hlength := hperm.length_eq.trans hone
  rw [hequal, hperm'.length_eq, hnone] at hlength
  cases hlength

end CallAtlas.Service
