import CallAtlas.Graph.Build
import CallAtlas.Proofs.Graph.Condensation
import CallAtlas.Proofs.OrderedMap
import CallAtlas.Proofs.Outcome
import Mathlib.Data.List.Forall2
import Mathlib.Data.List.Induction

/-! # What the call graph of an index holds

Whatever is called by name and has a definition has it somewhere in the index, so its place is a
node (`location_mem_nodes`). The edges of every call therefore join nodes (`Accounts.inRange`), and
the components of the graph are found (`exists_components`).

* `build_accounts`: the graph of an index has every place of a definition once, and every call of a
  definition gives its edges or one record. -/

namespace CallAtlas.Graph

/-! ## Nodes -/

/-- All places of definitions with their symbols, in the order of the index. -/
def places (items : List (Symbol × Info)) : List (Location × Symbol) :=
  items.flatMap fun e => e.2.definitions.map fun d => (d.location, e.1)

theorem map_fst_places (items : List (Symbol × Info)) :
    (places items).map Prod.fst =
      items.flatMap fun e => e.2.definitions.map Definition.location := by
  simp [places, List.map_flatMap, Function.comp_def]

/-- Every place is a node once, in the order of first occurrences, with the first of its symbols. -/
theorem nodesOf_spec (items : List (Symbol × Info)) :
    (nodesOf items).map Prod.fst = ((places items).map Prod.fst).eraseDups ∧
      ∀ n ∈ nodesOf items, (places items).find? (fun m => decide (m.1 = n.1)) = some n := by
  rw [nodesOf, ← places]
  -- from the end, where the loop looks at one more place after all others
  induction places items using List.reverseRecOn with
  | nil => exact ⟨rfl, fun _ hn => (nomatch hn)⟩
  | append_singleton ps p ih =>
    rw [List.foldl_append, List.foldl_cons, List.foldl_nil]
    generalize ps.foldl (fun acc n =>
      if acc.any fun m => decide (m.1 = n.1) then acc else acc ++ [n]) [] = found at ih ⊢
    obtain ⟨hplaces, hfirst⟩ := ih
    have hkept : ∀ n ∈ found, (ps ++ [p]).find? (fun m => decide (m.1 = n.1)) = some n :=
      fun n hn => by rw [List.find?_append, hfirst n hn]; rfl
    have hany : (found.any fun m => decide (m.1 = p.1)) ↔ p.1 ∈ ps.map Prod.fst := by
      rw [← List.mem_eraseDups, ← hplaces]
      simp
    rw [List.map_append, List.eraseDups_append]
    by_cases hp : p.1 ∈ ps.map Prod.fst
    · rw [if_pos (hany.2 hp)]
      refine ⟨?_, hkept⟩
      simp [List.removeAll, hp, hplaces]
    · rw [if_neg fun h => hp (hany.1 h)]
      refine ⟨?_, fun n hn => ?_⟩
      · rw [List.map_append, hplaces]
        simp [List.removeAll, hp, List.eraseDups_cons]
      · rcases List.mem_append.1 hn with hn | hn
        · exact hkept n hn
        · obtain rfl := List.mem_singleton.1 hn
          have hnew : ps.find? (fun m => decide (m.1 = n.1)) = none :=
            List.find?_eq_none.2 fun m hm hmn =>
              hp (List.mem_map.2 ⟨m, hm, of_decide_eq_true hmn⟩)
          rw [List.find?_append, hnew]
          simp

/-- The first symbol of the index with a definition at a place. -/
def firstOwner? (items : List (Symbol × Info)) (l : Location) : Option Symbol :=
  (items.find? fun e => e.2.definitions.any fun d => decide (d.location = l)).map Prod.fst

theorem find?_places (items : List (Symbol × Info)) (l : Location) :
    (places items).find? (fun m => decide (m.1 = l)) =
      (firstOwner? items l).map fun s => (l, s) := by
  induction items with
  | nil => rfl
  | cons e items ih =>
    rw [places, List.flatMap_cons, List.find?_append, ← places, ih, firstOwner?, firstOwner?,
      List.find?_cons, List.find?_map]
    cases hd : e.2.definitions.find? ((fun m => decide (m.1 = l)) ∘ fun d => (d.location, e.1)) with
    | none =>
      have hany : (e.2.definitions.any fun d => decide (d.location = l)) = false :=
        List.any_eq_false.2 (List.find?_eq_none.1 hd)
      rw [hany]
      rfl
    | some d =>
      have hl := List.find?_some hd
      have hany : (e.2.definitions.any fun d => decide (d.location = l)) = true :=
        List.any_eq_true.2 ⟨d, List.mem_of_find?_eq_some hd, hl⟩
      rw [hany]
      simp [← of_decide_eq_true hl]

theorem location_mem_nodes {items : List (Symbol × Info)} {e : Symbol × Info} {d : Definition}
    (he : e ∈ items) (hd : d ∈ e.2.definitions) :
    d.location ∈ (nodesOf items).map Prod.fst := by
  rw [(nodesOf_spec items).1, List.mem_eraseDups, map_fst_places]
  exact List.mem_flatMap.2 ⟨e, he, List.mem_map.2 ⟨d, hd, rfl⟩⟩

/-- What a symbol is defined as stands in the index. -/
theorem exists_item {ix : Index} {s : Symbol} {d : Definition} (h : d ∈ ix.definitions s) :
    ∃ e ∈ ix.items, d ∈ e.2.definitions := by
  cases ix with
  | listed ix =>
    cases hi : ix.infos.get? s with
    | none => simp [Index.definitions, Listed.definitions, Listed.info?, hi] at h
    | some i =>
      refine ⟨(s, i), OrderedMap.get?_eq_some_iff.1 hi, ?_⟩
      simpa [Index.definitions, Listed.definitions, Listed.info?, hi] using h
  | linked ix =>
    cases hc : ix.cards.get? s with
    | none => simp [Index.definitions, Linked.definitions, Linked.info?, hc] at h
    | some c =>
      refine ⟨(s, c.toInfo), List.mem_map.2 ⟨_, OrderedMap.get?_eq_some_iff.1 hc, rfl⟩, ?_⟩
      simpa [Index.definitions, Linked.definitions, Linked.info?, hc] using h

/-! ## Calls -/

/-- An edge joins the nodes of two places. -/
def Connects (nodes : List Location) (caller target : Location) (kind : EdgeKind) (e : Edge) :
    Prop :=
  ∃ i j : Nat, nodes[i]? = some caller ∧ nodes[j]? = some target ∧ e = ⟨i, j, kind⟩

/-- What a call of a symbol with the given definitions gives: edges and records that it was not
resolved. -/
inductive Accounts (nodes : List Location) (expand : Bool) (caller : Location) (call : Site) :
    List Definition → List Edge × List Unresolved → Prop
  | missing : Accounts nodes expand caller call []
      ([], [⟨caller, call.symbol, [call.location], .noDefinitions⟩])
  | single {d : Definition} {e : Edge} (h : Connects nodes caller d.location .must e) :
      Accounts nodes expand caller call [d] ([e], [])
  | several {ds : List Definition} {es : List Edge} (hds : 1 < ds.length) (hexpand : expand = true)
      (h : List.Forall₂ (fun d e => Connects nodes caller d.location .may e) ds es) :
      Accounts nodes expand caller call ds (es, [])
  | ambiguous {ds : List Definition} (hds : 1 < ds.length) (hexpand : expand = false) :
      Accounts nodes expand caller call ds
        ([], [⟨caller, call.symbol, [call.location], .ambiguous⟩])

theorem connects_position {nodes : List Location} {caller target : Location}
    (hc : caller ∈ nodes) (ht : target ∈ nodes) (kind : EdgeKind) :
    Connects nodes caller target kind ⟨position nodes caller, position nodes target, kind⟩ :=
  ⟨_, _, List.getElem?_idxOf hc, List.getElem?_idxOf ht, rfl⟩

theorem accounts_resolve {nodes : List Location} (expand : Bool) {caller : Location} (call : Site)
    {ds : List Definition} (hc : caller ∈ nodes) (hds : ∀ d ∈ ds, d.location ∈ nodes) :
    Accounts nodes expand caller call ds
      (edgesOf nodes caller (resolve expand ds), unresolvedOf caller call (resolve expand ds)) := by
  match ds with
  | [] => exact .missing
  | [d] => exact .single (connects_position hc (hds d (.head _)) .must)
  | d :: d' :: ds =>
    have hlength : 1 < (d :: d' :: ds).length := by simp
    cases expand with
    | false => exact .ambiguous hlength rfl
    | true =>
      have hedges : edgesOf nodes caller (resolve true (d :: d' :: ds)) = (d :: d' :: ds).map
          fun d => ⟨position nodes caller, position nodes d.location, .may⟩ :=
        List.map_map
      rw [hedges]
      refine .several hlength rfl ?_
      rw [List.forall₂_map_right_iff, List.forall₂_same]
      exact fun d hd => connects_position hc (hds d hd) .may

/-- Edges between nodes are in range. -/
theorem inRange_of_connects {nodes : List Location} {caller : Location} {kind : EdgeKind}
    {ds : List Definition} {es : List Edge}
    (h : List.Forall₂ (fun d e => Connects nodes caller d.location kind e) ds es) :
    InRange nodes.length es := by
  induction h with
  | nil => exact fun _ he => (nomatch he)
  | cons h _ ih =>
    obtain ⟨i, j, hi, hj, rfl⟩ := h
    have hi := (List.getElem?_eq_some_iff.1 hi).1
    have hj := (List.getElem?_eq_some_iff.1 hj).1
    refine List.forall_mem_cons.2 ⟨⟨⟨?_, ?_⟩, ?_, ?_⟩, ih⟩ <;> dsimp only <;> omega

theorem Accounts.inRange {nodes : List Location} {expand : Bool} {caller : Location} {call : Site}
    {ds : List Definition} {o : List Edge × List Unresolved}
    (h : Accounts nodes expand caller call ds o) : InRange nodes.length o.1 := by
  cases h with
  | missing | ambiguous => exact fun _ he => (nomatch he)
  | single h => exact inRange_of_connects (.cons h .nil)
  | several _ _ h => exact inRange_of_connects h

/-! ## The graph -/

theorem inRange_apply {n : Nat} {edges : List Edge} (h : InRange n edges) (direction : Direction) :
    InRange n (direction.apply edges) := by
  have hflip : InRange n (edges.map Edge.flip) := by
    intro e he
    obtain ⟨e', he', rfl⟩ := List.mem_map.1 he
    exact (h e' he').symm
  cases direction with
  | forward => exact h
  | backward => exact hflip
  | both => exact fun e he => (List.mem_append.1 he).elim (h e) (hflip e)

theorem exists_components {p : Part} (h : InRange p.nodes.length p.edges) :
    ∃ found, p.components = .ok found := by
  obtain ⟨components, pairs, hcomponents, hpairs, -⟩ := exists_condensed h
  exact ⟨(components, pairs), by simp only [Part.components, hcomponents, hpairs]⟩

/-- `g` is the graph of an index, where its calls give `outcomes`, one after the other. -/
structure Describes (ix : Index) (expand : Bool) (direction : Direction)
    (outcomes : List (List Edge × List Unresolved)) (g : CallGraph) : Prop where
  nodes : g.nodes = (ix.items.flatMap fun e => e.2.definitions.map Definition.location).eraseDups
  owners : List.Forall₂ (fun l s => firstOwner? ix.items l = some s) g.nodes g.owners
  calls : List.Forall₂ (fun c o => Accounts g.nodes expand c.1 c.2 (ix.definitions c.2.symbol) o)
    (ix.items.flatMap fun e => e.2.definitions.flatMap fun d =>
      d.calls.map fun c => (d.location, c)) outcomes
  edges : g.edges = match direction with
    | .forward => outcomes.flatMap Prod.fst
    | .backward => (outcomes.flatMap Prod.fst).map Edge.flip
    | .both => outcomes.flatMap Prod.fst ++ (outcomes.flatMap Prod.fst).map Edge.flip
  unresolved : g.unresolved = outcomes.flatMap Prod.snd
  stats : g.stats = some ⟨g.nodes.length, g.edges.length, g.unresolved.length⟩

/-- What becomes of the calls of an index. -/
def outcomesOf (ix : Index) (expand : Bool) : List (List Edge × List Unresolved) :=
  (calls ix.items).map fun c =>
    let r := resolve expand (ix.definitions c.2.symbol)
    (edgesOf ((nodesOf ix.items).map Prod.fst) c.1 r, unresolvedOf c.1 c.2 r)

theorem accounts_outcomesOf (ix : Index) (expand : Bool) :
    List.Forall₂ (fun c o => Accounts ((nodesOf ix.items).map Prod.fst) expand c.1 c.2
      (ix.definitions c.2.symbol) o) (calls ix.items) (outcomesOf ix expand) := by
  rw [outcomesOf, List.forall₂_map_right_iff, List.forall₂_same]
  intro c hc
  -- both the caller and what it calls stand somewhere in the index
  refine accounts_resolve expand c.2 ?_ fun d hd => ?_
  · obtain ⟨e, he, hc⟩ := List.mem_flatMap.1 hc
    obtain ⟨d, hd, hc⟩ := List.mem_flatMap.1 hc
    obtain ⟨call, -, rfl⟩ := List.mem_map.1 hc
    exact location_mem_nodes he hd
  · obtain ⟨e, he, hd⟩ := exists_item hd
    exact location_mem_nodes he hd

theorem inRange_outcomesOf (ix : Index) (expand : Bool) :
    InRange ((nodesOf ix.items).map Prod.fst).length ((outcomesOf ix expand).flatMap Prod.fst) := by
  intro e he
  obtain ⟨o, ho, he⟩ := List.mem_flatMap.1 he
  obtain ⟨c, hc, rfl⟩ := List.mem_map.1 ho
  have haccounts := accounts_outcomesOf ix expand
  rw [outcomesOf, List.forall₂_map_right_iff, List.forall₂_same] at haccounts
  exact (haccounts c hc).inRange e he

/-- The graph before components are looked for. -/
def wholePart (ix : Index) (expand : Bool) (direction : Direction) : Part :=
  ⟨(nodesOf ix.items).map Prod.fst, (nodesOf ix.items).map Prod.snd,
    direction.apply ((outcomesOf ix expand).flatMap Prod.fst)⟩

/-- Without entry points nothing is left out of the graph. -/
theorem build_eq (ix : Index) (expand : Bool) (direction : Direction) (withComponents : Bool) :
    build ix ⟨expand, direction, [], withComponents⟩ =
      (if withComponents then (wholePart ix expand direction).components else .ok ([], [])).map
        fun found =>
          let part := wholePart ix expand direction
          let unresolved := (outcomesOf ix expand).flatMap Prod.snd
          ⟨part.nodes, part.owners, part.edges, found.1, found.2, unresolved,
            some ⟨part.nodes.length, part.edges.length, unresolved.length⟩⟩ := by
  simp only [build, buildFrom, wholePart, outcomesOf, List.flatMap_map, List.isEmpty_nil, if_true,
    pure_bind]
  cases withComponents with
  | false => rfl
  | true => exact bind_pure_comp _ _

/-- The graph with its components, once these and the edges between them are found. -/
theorem build_eq_ok {ix : Index} {expand : Bool} {direction : Direction}
    {components : List (List Int)} {pairs : List (Int × Int)}
    (hcomponents : componentsOf (wholePart ix expand direction).nodes.length
      (wholePart ix expand direction).edges = .ok components)
    (hpairs : condense components (wholePart ix expand direction).edges = .ok pairs) :
    build ix ⟨expand, direction, [], true⟩ = .ok
      (let part := wholePart ix expand direction
       let unresolved := (outcomesOf ix expand).flatMap Prod.snd
       ⟨part.nodes, part.owners, part.edges, components, pairs, unresolved,
        some ⟨part.nodes.length, part.edges.length, unresolved.length⟩⟩) := by
  rw [build_eq, if_pos rfl, Part.components]
  simp only [hcomponents, hpairs]
  rfl

theorem nodes_of_build {ix : Index} {expand : Bool} {direction : Direction} {withComponents : Bool}
    {g : CallGraph} (h : build ix ⟨expand, direction, [], withComponents⟩ = .ok g) :
    g.nodes = (ix.items.flatMap fun e => e.2.definitions.map Definition.location).eraseDups := by
  rw [build_eq] at h
  obtain ⟨found, -, rfl⟩ := ok_of_map h
  exact (nodesOf_spec ix.items).1.trans (by rw [map_fst_places])

/-- Without entry points `build` gives every index a graph that `Describes` it: its nodes are the
places of definitions, in the order of their first occurrences and with the first symbol defined
there as owner, and every call of every definition in the order of the index `Accounts` for one
record if the called symbol has no definition, for one edge to its only one, and if it has several,
for an edge to each or one record. -/
theorem build_accounts (ix : Index) (expand : Bool) (direction : Direction)
    (withComponents : Bool) :
    ∃ g outcomes, build ix ⟨expand, direction, [], withComponents⟩ = .ok g ∧
      Describes ix expand direction outcomes g := by
  have hrange : InRange (wholePart ix expand direction).nodes.length
      (wholePart ix expand direction).edges :=
    inRange_apply (inRange_outcomesOf ix expand) direction
  obtain ⟨found, hfound⟩ : ∃ found, (if withComponents then
      (wholePart ix expand direction).components else .ok ([], [])) = .ok found := by
    cases withComponents with
    | false => exact ⟨_, rfl⟩
    | true => exact exists_components hrange
  refine ⟨_, outcomesOf ix expand, by rw [build_eq, hfound]; rfl, ?_⟩
  obtain ⟨hplaces, hfirst⟩ := nodesOf_spec ix.items
  refine ⟨hplaces.trans (by rw [map_fst_places]), ?_, accounts_outcomesOf ix expand, ?_, rfl, rfl⟩
  · -- a node comes with the symbol that is found first at its place
    refine List.forall₂_map_left_iff.2 (List.forall₂_map_right_iff.2 (List.forall₂_same.2 ?_))
    intro n hn
    have howner := hfirst n hn
    rw [find?_places, Option.map_eq_some_iff] at howner
    obtain ⟨s, hs, hns⟩ := howner
    rw [hs, ← hns]
  · cases direction <;> rfl

end CallAtlas.Graph
