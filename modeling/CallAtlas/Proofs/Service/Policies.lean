import CallAtlas.Proofs.Service.Filling
import CallAtlas.Proofs.Service.Remembered

/-! # Orders of work

Whatever the policy, an empty list can be filled. In arbitrary order it gets all definitions that
are wanted. The other two policies go by the places of the call graph and know one definition for
each of them, that of the symbol that came last (`siteAt?_eq_some_iff`). A definition whose place a
later symbol shares is `Shadowed` and never gets on the list by them.

* `queues_policies_iff`: the policies queue the same definitions iff none that is wanted is
  shadowed. -/

namespace CallAtlas.Service

variable {s : Service} {st : Setup} {ix : Index} {site : Site}

/-! ## The last symbol of a place -/

/-- Another symbol, which came later, is defined at the same place. -/
def Shadowed (ix : Index) (site : Site) : Prop :=
  ∃ symbol, [site.symbol, symbol].Sublist ix.symbols ∧
    (ix.definitionAt? symbol site.location).isSome

theorem mem_of_pair_sublist {α : Type} {x y : α} {before after : List α} (hx : x ∉ before)
    (h : [x, y].Sublist (before ++ x :: after)) : y ∈ after := by
  induction before with
  | nil => exact List.singleton_sublist.1 (List.cons_sublist_cons.1 h)
  | cons b before ih =>
    rw [List.mem_cons, not_or] at hx
    cases h with
    | cons _ h => exact ih hx.2 h
    | cons_cons => exact absurd rfl hx.1

/-- The last element that passes a test passes it, and none after it does. -/
theorem find?_reverse_eq_some_iff {α : Type} {xs : List α} (hnodup : xs.Nodup) {test : α → Bool}
    {x : α} : xs.reverse.find? test = some x ↔
      x ∈ xs ∧ test x ∧ ∀ y, [x, y].Sublist xs → ¬ test y := by
  rw [List.find?_eq_some_iff_append]
  constructor
  · rintro ⟨hx, after, before, hxs, hafter⟩
    have hsplit : xs = before.reverse ++ x :: after.reverse := by
      rw [← List.reverse_reverse xs, hxs]
      simp
    rw [hsplit] at hnodup ⊢
    have hbefore : x ∉ before.reverse := fun hmem =>
      (List.nodup_append.1 hnodup).2.2 x hmem x (.head _) rfl
    refine ⟨by simp, hx, fun y hy => ?_⟩
    have hy := hafter y (List.mem_reverse.1 (mem_of_pair_sublist hbefore hy))
    simpa using hy
  · rintro ⟨hmem, hx, hlast⟩
    obtain ⟨before, after, rfl⟩ := List.append_of_mem hmem
    refine ⟨hx, after.reverse, before.reverse, by simp, fun y hy => ?_⟩
    have hpair : [x, y].Sublist (before ++ x :: after) :=
      ((List.singleton_sublist.2 (List.mem_reverse.1 hy)).cons_cons x).trans
        (List.sublist_append_right before _)
    simpa using hlast y hpair

theorem find?_definitions (ix : Index) (symbol : Symbol) (l : Location) :
    ((ix.definitions symbol).map fun d => (⟨symbol, d.location⟩ : Site)).reverse.find?
        (fun site => decide (site.location = l)) =
      (Option.guard (fun symbol => (ix.definitionAt? symbol l).isSome) symbol).map
        fun symbol => ⟨symbol, l⟩ := by
  cases hfind : ((ix.definitions symbol).map fun d => (⟨symbol, d.location⟩ : Site)).reverse.find?
      (fun site => decide (site.location = l)) with
  | none =>
    have hnone : ¬ (ix.definitionAt? symbol l).isSome := fun hat => by
      obtain ⟨d, hd, hl⟩ := isSome_definitionAt?.1 hat
      refine List.find?_eq_none.1 hfind ⟨symbol, d.location⟩ ?_ (decide_eq_true hl)
      exact List.mem_reverse.2 (List.mem_map.2 ⟨d, hd, rfl⟩)
    rw [Option.guard, if_neg hnone]
    rfl
  | some found =>
    obtain ⟨d, hd, rfl⟩ := List.mem_map.1 (List.mem_reverse.1 (List.mem_of_find?_eq_some hfind))
    have hl : d.location = l := by simpa using List.find?_some hfind
    have hat : (ix.definitionAt? symbol l).isSome := isSome_definitionAt?.2 ⟨d, hd, hl⟩
    rw [Option.guard, if_pos hat, hl]
    rfl

/-- At a place there is the definition of the last symbol that is defined there. -/
theorem siteAt?_eq (ix : Index) (l : Location) : siteAt? ix l =
    (ix.symbols.reverse.find? fun symbol => (ix.definitionAt? symbol l).isSome).map
      fun symbol => ⟨symbol, l⟩ := by
  rw [siteAt?, allSites, List.reverse_flatMap, List.find?_flatMap, List.find?_eq_findSome?_guard,
    List.map_findSome?]
  congr 1
  funext symbol
  exact find?_definitions ix symbol l

theorem siteAt?_eq_some_iff {l : Location} : siteAt? ix l = some site ↔
    site.location = l ∧ (ix.definitionAt? site.symbol l).isSome ∧ ¬ Shadowed ix site := by
  rw [siteAt?_eq, Option.map_eq_some_iff]
  constructor
  · rintro ⟨symbol, hfind, rfl⟩
    obtain ⟨-, hat, hlast⟩ := (find?_reverse_eq_some_iff (nodup_symbols ix)).1 hfind
    exact ⟨rfl, hat, fun ⟨other, hpair, hother⟩ => hlast other hpair hother⟩
  · rintro ⟨rfl, hat, hlast⟩
    refine ⟨site.symbol, (find?_reverse_eq_some_iff (nodup_symbols ix)).2 ?_, rfl⟩
    exact ⟨mem_symbols_of_definitionAt? hat, hat,
      fun other hpair hother => hlast ⟨other, hpair, hother⟩⟩

/-! ## The definitions by policy -/

/-- The places that the service lists in one direction are those of the definitions. -/
theorem exists_order (hst : s.setup = some st) (hgraph : s.graph = none) {d : Graph.Direction}
    (hd : d ≠ .both) : ∃ listed g, (order d).on s = (.ok listed, { s with graph := some g }) ∧
      ∀ symbol l, (st.indexer.index.definitionAt? symbol l).isSome → l ∈ listed := by
  obtain ⟨g, listed, hbuild, hlisted, hperm⟩ := exists_traverse st.indexer.index hd
  refine ⟨listed, g, on_order hst hgraph hbuild hlisted, fun symbol l hat => ?_⟩
  obtain ⟨e, he, hl⟩ := isSome_definitionAt?.1 hat
  obtain ⟨i, hi, hei⟩ := mem_definitions_iff.1 he
  rw [hperm.mem_iff, List.mem_eraseDups, List.mem_flatMap]
  exact ⟨_, hi, List.mem_map.2 ⟨e, hei, hl⟩⟩

theorem exists_sitesBy_order (hst : s.setup = some st) (hgraph : s.graph = none)
    {d : Graph.Direction} (hd : d ≠ .both) : ∃ sites g,
      (do return (← order d).filterMap (siteAt? st.indexer.index) : Tool (List Site)).on s =
        (.ok sites, { s with graph := some g }) ∧
      ∀ site, site ∈ sites ↔
        (st.indexer.index.definitionAt? site.symbol site.location).isSome ∧
          ¬ Shadowed st.indexer.index site := by
  obtain ⟨listed, g, horder, hlisted⟩ := exists_order hst hgraph hd
  refine ⟨listed.filterMap (siteAt? st.indexer.index), g, ?_, fun site => ?_⟩
  · rw [on_bind, horder]
    rfl
  · simp only [List.mem_filterMap, siteAt?_eq_some_iff]
    constructor
    · rintro ⟨l, -, rfl, hsite⟩
      exact hsite
    · exact fun hsite => ⟨site.location, hlisted _ _ hsite.1, rfl, hsite⟩

/-- The definitions that a policy finds: those in arbitrary order are all of them, the others leave
out what is shadowed. -/
theorem exists_sitesBy (hst : s.setup = some st) (hgraph : s.graph = none) (policy : Policy) :
    ∃ sites s', (sitesBy st.indexer.index policy).on s = (.ok sites, s') ∧ s'.todo = s.todo ∧
      ∀ site, site ∈ sites ↔
        (st.indexer.index.definitionAt? site.symbol site.location).isSome ∧
          (policy ≠ .arbitrary → ¬ Shadowed st.indexer.index site) := by
  cases policy with
  | arbitrary =>
    refine ⟨allSites st.indexer.index, s, rfl, rfl, fun site => ?_⟩
    rw [mem_allSites]
    exact ⟨fun hsite => ⟨hsite, fun h => absurd rfl h⟩, And.left⟩
  | calleesFirst =>
    obtain ⟨sites, g, hon, hsites⟩ := exists_sitesBy_order hst hgraph (d := .backward) nofun
    exact ⟨sites, _, hon, rfl, fun site => by simp [hsites]⟩
  | callersFirst =>
    obtain ⟨sites, g, hon, hsites⟩ := exists_sitesBy_order hst hgraph (d := .forward) nofun
    exact ⟨sites, _, hon, rfl, fun site => by simp [hsites]⟩

/-! ## Queues -/

/-- Filling the list succeeds, and then exactly some definitions are pending, each once. -/
def Queues (s : Service) (policy : Policy) (skipNoted : Bool) (sites : Site → Prop) : Prop :=
  ∃ s', (fillTodo policy skipNoted).on s = (.ok (), s') ∧ s'.todo.TellsWaiting ∧
    (s'.todo.pendingIds none 0).Nodup ∧ ∀ site, site ∈ s'.todo.pendingIds none 0 ↔ sites site

/-- What a policy queues is determined by the service. -/
theorem Queues.unique {policy : Policy} {skipNoted : Bool} {sites sites' : Site → Prop}
    (h : s.Queues policy skipNoted sites) (h' : s.Queues policy skipNoted sites') (site : Site) :
    sites site ↔ sites' site := by
  obtain ⟨s₁, hon, -, -, hsites⟩ := h
  obtain ⟨s₂, hon', -, -, hsites'⟩ := h'
  obtain rfl : s₁ = s₂ := congrArg Prod.snd (hon.symm.trans hon')
  rw [← hsites, hsites']

theorem Queues.congr {policy : Policy} {skipNoted : Bool} {sites sites' : Site → Prop}
    (h : s.Queues policy skipNoted sites) (hiff : ∀ site, sites site ↔ sites' site) :
    s.Queues policy skipNoted sites' := by
  obtain ⟨s', hon, htells, hnodup, hsites⟩ := h
  exact ⟨s', hon, htells, hnodup, fun site => (hsites site).trans (hiff site)⟩

/-- An empty list gets the definitions that the policy finds, as far as they are wanted. -/
theorem queues_of_empty (hst : s.setup = some st) {name : Text} {again : Bool}
    (hempty : s.todo = .empty name again) (hgraph : s.graph = none) (policy : Policy)
    (skipNoted : Bool) : s.Queues policy skipNoted fun site =>
      ((st.indexer.index.definitionAt? site.symbol site.location).isSome ∧
        Wanted st.indexer.index skipNoted site) ∧
      (policy ≠ .arbitrary → ¬ Shadowed st.indexer.index site) := by
  obtain ⟨sites, s', hon, htodo, hsites⟩ := exists_sitesBy hst hgraph policy
  have hcon : (sites.foldl (enqueue st.indexer.index st.serial skipNoted) s'.todo).Consistent := by
    rw [htodo, hempty]
    exact consistent_foldl_enqueue (.empty name again) sites
  refine ⟨_, on_fillTodo hst hon, hcon.tellsWaiting, hcon.nodup_pendingIds, fun site => ?_⟩
  rw [hcon.mem_pendingIds, htodo, hempty]
  simp only [mem_tasks_foldl_enqueue, hsites]
  constructor
  · rintro ⟨t, ht | ⟨new, ⟨hat, hlast⟩, hwanted, -, rfl⟩, -, rfl⟩
    · exact absurd ht List.not_mem_nil
    · exact ⟨⟨hat, hwanted⟩, hlast⟩
  · rintro ⟨⟨hat, hwanted⟩, hlast⟩
    exact ⟨_, .inr ⟨site, ⟨hat, hlast⟩, hwanted, List.not_mem_nil, rfl⟩, rfl, rfl⟩

/-- With an empty list and without a call graph, every policy `Queues` the definitions that are
`Wanted`, but policies other than `.arbitrary` leave out those that are `Shadowed`. So all policies
queue the same iff every definition that is `Shadowed` has a note and `skipNoted` is set. -/
theorem queues_policies_iff (s : Service) (st : Setup) (hst : s.setup = some st) {name : Text}
    {again : Bool} (hempty : s.todo = .empty name again) (hgraph : s.graph = none)
    (skipNoted : Bool) :
    (∀ policy, s.Queues policy skipNoted fun site =>
      ((st.indexer.index.definitionAt? site.symbol site.location).isSome ∧
        Wanted st.indexer.index skipNoted site) ∧
      (policy ≠ .arbitrary → ¬ Shadowed st.indexer.index site)) ∧
    ((∃ sites, ∀ policy, s.Queues policy skipNoted sites) ↔
      ∀ site, (st.indexer.index.definitionAt? site.symbol site.location).isSome →
        Shadowed st.indexer.index site →
          skipNoted = true ∧ (noteOn st.indexer.index site).isSome) := by
  have hqueues := queues_of_empty hst hempty hgraph
  refine ⟨fun policy => hqueues policy skipNoted, ?_⟩
  have hunwanted (site : Site) : ¬ Wanted st.indexer.index skipNoted site ↔
      skipNoted = true ∧ (noteOn st.indexer.index site).isSome := by
    rw [Wanted, Classical.not_imp, Option.isSome_iff_ne_none]
  simp only [← hunwanted]
  constructor
  · rintro ⟨sites, hsame⟩ site hat hshadowed hwanted
    -- in arbitrary order the definition is queued, so it is not shadowed for the others
    have hall := (Queues.unique (hsame .arbitrary) (hqueues .arbitrary skipNoted) site).2
      ⟨⟨hat, hwanted⟩, fun h => absurd rfl h⟩
    exact ((Queues.unique (hsame .calleesFirst) (hqueues .calleesFirst skipNoted) site).1 hall).2
      nofun hshadowed
  · intro hnone
    refine ⟨_, fun policy => (hqueues policy skipNoted).congr fun site => ⟨And.left, ?_⟩⟩
    exact fun hsite => ⟨hsite, fun _ hshadowed => hnone site hsite.1 hshadowed hsite.2⟩

/-! A repository with one function is set up, and a note is taken on a method at its place that the
index did not know. -/

def sharedPlace : Service :=
  letI := Library.standard
  ((takeNote ⟨.method "f" (some "A"), twinSite.location⟩ twinNote).on firstTwin).2

theorem todo_sharedPlace :
    sharedPlace.todo = .empty sharedPlace.todo.name sharedPlace.todo.resubmit := by
  have hempty : (sharedPlace.todo.tasks.isEmpty && sharedPlace.todo.pending.isEmpty &&
      sharedPlace.todo.recent.isEmpty) = true := by decide +kernel
  generalize sharedPlace.todo = list at hempty ⊢
  obtain ⟨name, tasks, pending, recent, again⟩ := list
  simp only [Bool.and_eq_true, List.isEmpty_iff] at hempty
  obtain ⟨⟨rfl, rfl⟩, rfl⟩ := hempty
  rfl

/-- The function has no note, but the method is the last symbol at its place. So the function is
queued in arbitrary order, and not if the callees come first. -/
theorem queues_policies_iff_sharedPlace :
    ∃ st, sharedPlace.setup = some st ∧ noteOn st.indexer.index twinSite = none ∧
      Shadowed st.indexer.index twinSite ∧
      (¬ ∃ sites, ∀ policy, sharedPlace.Queues policy true sites) ∧
      (∃ s', (fillTodo .arbitrary true).on sharedPlace = (.ok (), s') ∧
        twinSite ∈ s'.todo.pendingIds none 0) ∧
      ∃ s', (fillTodo .calleesFirst true).on sharedPlace = (.ok (), s') ∧
        twinSite ∉ s'.todo.pendingIds none 0 := by
  have hgraph : sharedPlace.graph = none := Option.isNone_iff_eq_none.1 (by decide +kernel)
  have hfacts : sharedPlace.setup.map (fun st =>
      ((st.indexer.index.definitionAt? twinSite.symbol twinSite.location).isSome,
        noteOn st.indexer.index twinSite, st.indexer.index.symbols,
        (st.indexer.index.definitionAt? (.method "f" (some "A")) twinSite.location).isSome)) =
      some (true, none, [.function "f", .method "f" (some "A")], true) := by decide +kernel
  obtain ⟨st, hst, hfacts⟩ := Option.map_eq_some_iff.1 hfacts
  simp only [Prod.mk.injEq] at hfacts
  obtain ⟨hat, hnone, hsymbols, hother⟩ := hfacts
  have hshadowed : Shadowed st.indexer.index twinSite := ⟨_, hsymbols ▸ .refl _, hother⟩
  obtain ⟨hqueues, hiff⟩ := queues_policies_iff sharedPlace st hst todo_sharedPlace hgraph true
  obtain ⟨s₁, hon₁, -, -, hsites₁⟩ := hqueues .arbitrary
  obtain ⟨s₂, hon₂, -, -, hsites₂⟩ := hqueues .calleesFirst
  refine ⟨st, hst, hnone, hshadowed, fun hsame => ?_, ⟨s₁, hon₁, (hsites₁ _).2 ?_⟩, s₂, hon₂, ?_⟩
  · have hnoted := (hiff.1 hsame twinSite hat hshadowed).2
    rw [hnone] at hnoted
    cases hnoted
  · exact ⟨⟨hat, fun _ => hnone⟩, fun h => absurd rfl h⟩
  · exact fun hmem => ((hsites₂ _).1 hmem).2 nofun hshadowed

end CallAtlas.Service
