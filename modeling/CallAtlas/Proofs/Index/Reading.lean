import CallAtlas.Index.Reading
import CallAtlas.Proofs.Index.Owners
import CallAtlas.Proofs.Index.Replays

/-! # Reading changes nothing

`Reads ix t a`: reading `t` from `ix` gives `a` and leaves the index as it is. This holds of asking
for what is there (`reads_card`, `reads_definitionItem`), so it holds of every reader that looks
before it asks. A search does not look: it asks for the card of whatever symbol is noted as the
owner of a place. It changes nothing since owners are defined at their places after every run
(`owners_run`).

* `run_undisturbed`: after every run, readers answer as the index tells and leave it as it is. -/

namespace CallAtlas

/-- Of the definitions of symbols, a call graph shows those of the symbols that are called. -/
theorem Graph.buildFrom_congr {items : List (Symbol × Info)} {f g : Symbol → List Definition}
    (h : ∀ c ∈ calls items, f c.2.symbol = g c.2.symbol) (o : BuildOptions) :
    buildFrom items f o = buildFrom items g o := by
  have hresolved : ((calls items).map fun c => (c, resolve o.expand (f c.2.symbol))) =
      (calls items).map fun c => (c, resolve o.expand (g c.2.symbol)) :=
    List.map_congr_left fun c hc => by rw [h c hc]
  simp only [buildFrom, hresolved]

namespace Linked

variable {ix : Linked} {α β : Type} {s : Symbol} {l : Location}

theorem run_bind (t : Reading α) (k : α → Reading β) (ix : Linked) :
    (t >>= k).run ix = (k (t.run ix).1).run (t.run ix).2 := rfl

theorem run_get (ix : Linked) : (get : Reading Linked).run ix = (ix, ix) := rfl

/-- Something is read from an index, which stays as it is. -/
def Reads (ix : Linked) (t : Reading α) (a : α) : Prop := t.run ix = (a, ix)

theorem reads_pure (ix : Linked) (a : α) : ix.Reads (pure a) a := rfl

theorem reads_get (ix : Linked) : ix.Reads get ix := rfl

theorem Reads.bind {t : Reading α} {k : α → Reading β} {a : α} {b : β} (ht : ix.Reads t a)
    (hk : ix.Reads (k a) b) : ix.Reads (t >>= k) b := by
  rw [Reads, run_bind, ht]
  exact hk

/-! ## Asking for what is there -/

theorem onCard_of_fixed {c : Card} {f : Card → Card} (hc : ix.cards.get? s = some c)
    (hf : f c = c) : ix.onCard s f = ix :=
  ext_parts (cards_onCard_of_fixed hc hf) rfl

theorem reads_card {c : Card} (hc : ix.cards.get? s = some c) : ix.Reads (Reading.card s) c := by
  have hfixed : ix.onCard s id = ix := onCard_of_fixed hc rfl
  change (ix.card s).swap = (c, ix)
  rw [card, hfixed, hc]
  rfl

theorem reads_definitionItem {d : Definition} (hd : ix.definitionAt? s l = some d) :
    ix.Reads (Reading.definitionItem s l) d := by
  obtain ⟨c, hc, hdc⟩ := Option.bind_eq_some_iff.1 hd
  have hdefinitions : c.definitions.modify l (.bare l) id = c.definitions := by
    rw [OrderedMap.modify, hdc]
    exact OrderedMap.insert_of_get? hdc
  have hfixed : ix.onCard s (fun c => { c with
      definitions := c.definitions.modify l (.bare l) id }) = ix :=
    onCard_of_fixed hc (by rw [hdefinitions])
  change (ix.definitionItem s l).swap = (d, ix)
  rw [definitionItem, hfixed, hd]
  rfl

/-! ## Readers that look first -/

theorem reads_contains (ix : Linked) (s : Symbol) :
    ix.Reads (Reading.contains s) (ix.cards.contains s) := rfl

theorem reads_info? (ix : Linked) (s : Symbol) : ix.Reads (Reading.info? s) (ix.info? s) := by
  refine (reads_contains ix s).bind ?_
  rw [OrderedMap.contains, info?]
  cases hc : ix.cards.get? s with
  | none => exact reads_pure ix _
  | some c => exact (reads_card hc).bind (reads_pure ix _)

theorem reads_info (ix : Linked) (s : Symbol) :
    ix.Reads (Reading.info s) ((Index.linked ix).info s) := by
  refine (reads_contains ix s).bind ?_
  rw [OrderedMap.contains, Index.info, Index.info?, info?]
  cases hc : ix.cards.get? s with
  | none => exact reads_pure ix _
  | some c => exact (reads_card hc).bind (reads_pure ix _)

theorem reads_definitions (ix : Linked) (s : Symbol) :
    ix.Reads (Reading.definitions s) (ix.definitions s) :=
  (reads_info? ix s).bind (reads_pure ix _)

theorem reads_references (ix : Linked) (s : Symbol) :
    ix.Reads (Reading.references s) (ix.references s) :=
  (reads_info? ix s).bind (reads_pure ix _)

/-- The cards of symbols that are in the index are there to be asked for. -/
theorem reads_tell {es : List (Symbol × Card)} (h : ∀ e ∈ es, e ∈ ix.cards.entries) :
    ix.Reads (Reading.tell (es.map Prod.fst)) (es.map fun e => (e.1, e.2.toInfo)) := by
  induction es with
  | nil => exact reads_pure ix _
  | cons e es ih =>
    have hcard : ix.cards.get? e.1 = some e.2 := OrderedMap.get?_eq_some_iff.2 (h e (.head _))
    have hrest := ih fun e he => h e (.tail _ he)
    exact (reads_card hcard).bind (hrest.bind (reads_pure ix _))

theorem reads_full (ix : Linked) (s : Symbol) (l : Location) : ix.Reads (Reading.full s l)
    ((ix.definitionAt? s l).map fun d => (s, ⟨[d], ix.references s⟩)).toList := by
  refine (reads_contains ix s).bind ?_
  rw [OrderedMap.contains, references, info?]
  cases hc : ix.cards.get? s with
  | none =>
    rw [definitionAt?, hc]
    exact reads_pure ix _
  | some c =>
    have hat : ix.definitionAt? s l = c.definitions.get? l := by rw [definitionAt?, hc]; rfl
    refine (reads_card hc).bind ?_
    rw [OrderedMap.contains, ← hat]
    cases hd : ix.definitionAt? s l with
    | none => exact reads_pure ix _
    | some d => exact (reads_definitionItem hd).bind ((reads_card hc).bind (reads_pure ix _))

theorem answer_fullDefinition [Library] (ix : Linked) (s : Symbol) (l : Location) :
    ix.answer (.fullDefinition s l) =
      .ok ((ix.definitionAt? s l).map fun d => (s, ⟨[d], ix.references s⟩)).toList := by
  simp only [answer, Query.test, definitionAt?, references, info?]
  cases ix.cards.get? s with
  | none => rfl
  | some c =>
    simp only [Option.bind_some]
    cases c.definitions.get? l <;> rfl

/-- The symbols that pass a test are keys of the table. -/
theorem reads_tested (ix : Linked) (test : Symbol → Bool) :
    ix.Reads (do return .ok (← Reading.tell ((← Reading.symbols).filter test)))
      (.ok (ix.items.filter fun e => test e.1) : Except QueryError (List Answer)) := by
  have hkeys : ix.cards.keys.filter test =
      (ix.cards.entries.filter fun e => test e.1).map Prod.fst := by
    rw [OrderedMap.keys, List.filter_map]
    rfl
  have hitems : (ix.items.filter fun e => test e.1) =
      (ix.cards.entries.filter fun e => test e.1).map fun e => (e.1, e.2.toInfo) := by
    rw [items, List.filter_map]
    rfl
  have htell := @reads_tell ix (ix.cards.entries.filter fun e => test e.1) fun e he =>
    (List.mem_filter.1 he).1
  rw [← hkeys, ← hitems] at htell
  exact (reads_get ix).bind (htell.bind (reads_pure ix _))

theorem reads_answer [Library] (ix : Linked) (q : Query) :
    ix.Reads (Reading.answer q) (ix.answer q) := by
  cases q with
  | byKey s => exact (reads_info? ix s).bind (reads_pure ix _)
  | byName name filter => exact reads_tested ix _
  | byPattern pattern filter =>
    simp only [Reading.answer, answer, Query.test]
    cases Library.search pattern with
    | error e => exact reads_pure ix _
    | ok p => exact reads_tested ix _
  | fullDefinition s l =>
    rw [answer_fullDefinition]
    exact (reads_full ix s l).bind (reads_pure ix _)
  | unsupported => exact reads_pure ix _

/-! ## Call graphs -/

/-- What has been read of the definitions of symbols is right, and nothing is forgotten. -/
theorem exists_reads_remember (symbols : List Symbol) (known : OrderedMap Symbol (List Definition))
    (h : ∀ s ds, known.get? s = some ds → ds = ix.definitions s) :
    ∃ known', ix.Reads (symbols.foldlM Reading.remember known) known' ∧
      (∀ s ds, known'.get? s = some ds → ds = ix.definitions s) ∧
      ∀ s, s ∈ known.keys ∨ s ∈ symbols → s ∈ known'.keys := by
  induction symbols generalizing known with
  | nil => exact ⟨known, reads_pure ix _, h, fun s hs => hs.elim id nofun⟩
  | cons t symbols ih =>
    rw [List.foldlM_cons]
    by_cases ht : known.contains t = true
    · have hstep : ix.Reads (Reading.remember known t) known := by
        rw [Reading.remember, if_pos ht]
        exact reads_pure ix _
      obtain ⟨known', hreads, hright, hkept⟩ := ih known h
      refine ⟨known', hstep.bind hreads, hright, fun s hs => hkept s ?_⟩
      rcases hs with hs | hs
      · exact .inl hs
      · rcases List.mem_cons.1 hs with rfl | hs
        · exact .inl (OrderedMap.contains_iff.1 ht)
        · exact .inr hs
    · have hstep : ix.Reads (Reading.remember known t) (known.insert t (ix.definitions t)) := by
        rw [Reading.remember, if_neg ht]
        exact (reads_definitions ix t).bind (reads_pure ix _)
      have hnew : ∀ s ds, (known.insert t (ix.definitions t)).get? s = some ds →
          ds = ix.definitions s := by
        intro s ds hs
        rw [OrderedMap.get?_insert] at hs
        split at hs
        · next hts => rw [← Option.some.inj hs, hts]
        · exact h s ds hs
      obtain ⟨known', hreads, hright, hkept⟩ := ih _ hnew
      refine ⟨known', hstep.bind hreads, hright, fun s hs => hkept s ?_⟩
      rw [OrderedMap.mem_keys_insert]
      rcases hs with hs | hs
      · exact .inl (.inl hs)
      · exact (List.mem_cons.1 hs).imp_left .inr

theorem reads_callGraph (ix : Linked) (o : Graph.BuildOptions) :
    ix.Reads (Reading.callGraph o) (Graph.build (.linked ix) o) := by
  obtain ⟨known, hreads, hright, hkept⟩ := @exists_reads_remember ix
    ((Graph.calls ix.items).map fun c => c.2.symbol) .empty nofun
  have hbuild : Graph.buildFrom ix.items (fun s => (known.get? s).getD []) o =
      Graph.build (.linked ix) o := by
    refine Graph.buildFrom_congr (fun c hc => ?_) o
    obtain ⟨ds, hds⟩ := OrderedMap.mem_keys_iff.1
      (hkept c.2.symbol (.inr (List.mem_map.2 ⟨c, hc, rfl⟩)))
    rw [hds, Option.getD_some]
    exact hright _ ds hds
  rw [← hbuild]
  exact (reads_get ix).bind (hreads.bind (reads_pure ix _))

/-! ## Searches -/

/-- Asking for the owner's definition makes a card for an owner without one. -/
theorem run_owned (ix : Linked) (s : Symbol) (l : Location) : (Reading.owned l (some s)).run ix =
    ((ix.definitionAt? s l).map fun d => (s, d), ix.onCard s id) := by
  rw [← card_definitions]
  rfl

theorem onCard_of_definitionAt? {d : Definition} (hd : ix.definitionAt? s l = some d) :
    ix.onCard s id = ix := by
  obtain ⟨c, hc, -⟩ := Option.bind_eq_some_iff.1 hd
  exact onCard_of_fixed hc rfl

theorem reads_owned (h : ix.Owned) (l : Location) : ix.Reads (Reading.owned l (ix.owners.get? l))
    ((ix.owners.get? l).bind fun s => (ix.definitionAt? s l).map fun d => (s, d)) := by
  cases hs : ix.owners.get? l with
  | none => exact reads_pure ix _
  | some s =>
    obtain ⟨d, hd⟩ := h l s hs
    rw [Reads, run_owned, onCard_of_definitionAt? hd]
    rfl

/-- A search through the tables is the search of the index, also where it changes the index. -/
theorem run_find (ix : Linked) (l : Location) : (Reading.find l).run ix = (ix.find l).swap := by
  rw [Reading.find, run_bind, run_get]
  unfold find
  cases hs : ix.owners.get? l with
  | none => rfl
  | some s =>
    rw [run_bind, run_owned]
    dsimp only
    cases hd : ix.definitionAt? s l with
    | some d =>
      rw [onCard_of_definitionAt? hd]
      rfl
    | none =>
      -- the owners are read off the cards again, so the second search finds what it asks for
      exact reads_owned (owned_reown (ix.onCard s id)) l

theorem reads_find (h : ix.Owned) (l : Location) : ix.Reads (Reading.find l) (ix.find l).2 := by
  rw [Reads, run_find, find_of_owned h]
  rfl

/-- If the card of an owner is taken away by hand, a search makes an empty one. -/
example :
    let ix := (empty.addDefinition (.function "f") (.bare (lineAt 1))).dropCard (.function "f")
    ((Reading.find (lineAt 1)).run ix).2.cards = .ofList [(.function "f", .empty)] := by
  decide +kernel

/-! ## All readers -/

/-- All readers answer as the index tells, and leave it as it is. -/
structure Undisturbed [Library] (ix : Linked) : Prop where
  size : ix.Reads Reading.size (Index.linked ix).size
  contains (s : Symbol) : ix.Reads (Reading.contains s) ((Index.linked ix).contains s)
  symbols : ix.Reads Reading.symbols (Index.linked ix).symbols
  items : ix.Reads Reading.items ix.items
  info? (s : Symbol) : ix.Reads (Reading.info? s) (ix.info? s)
  info (s : Symbol) : ix.Reads (Reading.info s) ((Index.linked ix).info s)
  definitions (s : Symbol) : ix.Reads (Reading.definitions s) (ix.definitions s)
  references (s : Symbol) : ix.Reads (Reading.references s) (ix.references s)
  snapshot : ix.Reads Reading.snapshot ix.snapshot
  answer (q : Query) : ix.Reads (Reading.answer q) (ix.answer q)
  find (l : Location) : ix.Reads (Reading.find l) (ix.find l).2
  callGraph (o : Graph.BuildOptions) :
    ix.Reads (Reading.callGraph o) (Graph.build (.linked ix) o)

theorem undisturbed_of_owned [Library] (h : ix.Owned) : ix.Undisturbed where
  size := by
    rw [Index.size, Index.items, items, List.length_map]
    rfl
  contains s := by
    rw [Index.contains, Index.info?, info?, Option.isSome_map]
    exact reads_contains ix s
  symbols := by
    rw [Index.symbols, Index.items, items, List.map_map]
    rfl
  items := rfl
  info? := reads_info? ix
  info := reads_info ix
  definitions := reads_definitions ix
  references := reads_references ix
  snapshot := rfl
  answer := reads_answer ix
  find := reads_find h
  callGraph := reads_callGraph ix

end Linked

/-- After every `run`, the `owners` are defined at their places. So the index is `Undisturbed` by
whatever is read, `find` included, and a definition that is found is the one that `definitionAt?`
has for its symbol. -/
theorem Index.run_undisturbed [Library] (steps : List Step) : ∃ ix, run .linked steps = .linked ix ∧
    (∀ l s, ix.owners.get? l = some s → ∃ d, ix.definitionAt? s l = some d) ∧ ix.Undisturbed ∧
    ∀ l, (ix.find l).1 = ix ∧
      ∀ s d, (ix.find l).2 = some (s, d) → ix.definitionAt? s l = some d := by
  obtain ⟨ix, hrun, howned, -⟩ := owners_run steps
  refine ⟨ix, hrun, howned, Linked.undisturbed_of_owned howned, fun l => ?_⟩
  rw [Linked.find_of_owned howned]
  refine ⟨rfl, fun s d hfound => ?_⟩
  obtain ⟨t, -, hd⟩ := Option.bind_eq_some_iff.1 hfound
  obtain ⟨e, he, heq⟩ := Option.map_eq_some_iff.1 hd
  cases heq
  exact he

end CallAtlas
