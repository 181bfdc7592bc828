import CallAtlas.Index.Change
import CallAtlas.Proofs.Index.Owners

/-! # Refused changes

A change that can fail is a step of a run (`attempt_fst`), and `Change.RefusedWith` tells when it
fails and with which error. A refused change mostly finds out before it has changed anything. Not so
when a linked index is given something that is no info for a symbol that it has: the symbol is
forgotten by then, and so are the owners of its places (`WithoutSymbol`).

* `refused_unchanged_iff`: after every run, a refused change leaves an index that tells the same and
  finds the same, except in this case. -/

namespace CallAtlas

theorem attemptEach_of_none {σ β : Type} {change : σ → β → σ × Option IndexError} {f : σ → β → σ}
    (h : ∀ x b, change x b = (f x b, none)) (bs : List β) (x : σ) :
    attemptEach change bs x = (bs.foldl f x, none) := by
  induction bs generalizing x with
  | nil => rfl
  | cons b bs ih =>
    simp only [attemptEach, h]
    exact ih (f x b)

/-! ## Changes of a linked index -/

namespace Linked

variable {ix : Linked}

theorem attemptDelete_eq (ix : Linked) (s : Symbol) : ix.attemptDelete s =
    if ix.cards.contains s then (ix.drop s, none) else (ix, some (.missing s)) := by
  unfold attemptDelete disown drop OrderedMap.contains
  cases hc : ix.cards.get? s with
  | none => simp [hc]
  | some c => simp [hc, dropCard]

theorem drop_of_not_contains {s : Symbol} (h : ¬ ix.cards.contains s = true) : ix.drop s = ix := by
  unfold drop
  split
  · rfl
  · next hc => exact absurd (by rw [OrderedMap.contains, hc]; rfl) h

/-- Before the new content is looked at, the symbol is forgotten. -/
theorem attemptSet_eq (ix : Linked) (s : Symbol) (x : Content) : ix.attemptSet s x =
    match x with
    | .foreign => (ix.drop s, some .noDefinitions)
    | .info i => (ix.set s i, none) := by
  have hforgotten : (if ix.cards.contains s then ix.attemptDelete s else (ix, none)) =
      (ix.drop s, none) := by
    rw [attemptDelete_eq]
    by_cases hs : ix.cards.contains s = true
    · simp [hs]
    · simp [hs, drop_of_not_contains hs]
  unfold attemptSet
  rw [hforgotten]
  cases x with
  | foreign => rfl
  | info i =>
    have hown : ∀ (ls : List Location) (k : Linked), ls.foldl (fun k l => k.own l s) k =
        ⟨k.cards, ls.foldl (fun m l => m.insert l s) k.owners⟩ := by
      intro ls
      induction ls with
      | nil => intro k; rfl
      | cons l ls ih => intro k; exact ih (k.own l s)
    simp only [hown, set]

theorem attemptLoad_eq (ix : Linked) (data : Snapshot) :
    ix.attemptLoad data = (ix.load data, none) := by
  have hset : ∀ (k : Linked) (e : Symbol × Info),
      k.attemptSet e.1 (.info e.2) = (k.set e.1 e.2, none) := fun k e => attemptSet_eq k e.1 _
  rw [attemptLoad, attemptEach_of_none hset]
  rfl

theorem items_drop (ix : Linked) (s : Symbol) :
    (ix.drop s).items = ix.items.filter fun e => decide (e.1 ≠ s) := by
  have herase : (ix.cards.erase s).entries.map (fun e => (e.1, e.2.toInfo)) =
      ix.items.filter fun e => decide (e.1 ≠ s) := by
    rw [OrderedMap.entries_erase, items, List.filter_map]
    rfl
  unfold drop
  split
  · next hnone =>
    have hkeys : ∀ e ∈ ix.items, e.1 ≠ s := by
      intro e he hes
      obtain ⟨x, hx, rfl⟩ := List.mem_map.1 he
      exact OrderedMap.get?_eq_none_iff.1 hnone (hes ▸ List.mem_map_of_mem hx)
    exact (List.filter_eq_self.2 fun e he => decide_eq_true (hkeys e he)).symm
  · exact herase

/-- Nothing is found any more where the symbol was defined, and elsewhere the same as before. -/
theorem find_drop (h : ix.Owned) (s : Symbol) (l : Location) : ((ix.drop s).find l).2 =
    if (ix.definitionAt? s l).isSome then none else (ix.find l).2 := by
  rw [find_of_owned (moves_drop h s).owned, find_of_owned h, get?_owners_drop]
  split
  · rfl
  · next hs =>
    cases ht : ix.owners.get? l with
    | none => rfl
    | some t =>
      -- the owner is another symbol, since the forgotten one has no definition here
      obtain ⟨d, hd⟩ := h l t ht
      have hd : ix.definitionAt? t l = some d := hd
      have hst : s ≠ t := by
        intro hst
        rw [hst, hd] at hs
        exact hs rfl
      simp only [Option.bind_some, definitionAt?_drop, if_neg hst]

end Linked

/-! ## Changes of either kind of index -/

namespace Index

/-- The index and the error that an attempt leaves. -/
def leaves (ix : Index) : Except IndexError Index → Index × Option IndexError
  | .ok ix' => (ix', none)
  | .error e => (ix, some e)

theorem attempt_set_info (ix : Index) (s : Symbol) (i : Info) :
    ix.attempt (.set s (.info i)) = (ix.set s i, none) := by
  cases ix with
  | listed ix => rfl
  | linked ix => rw [attempt, Linked.attemptSet_eq]; rfl

theorem attempt_set_foreign (ix : Index) (s : Symbol) :
    ix.attempt (.set s .foreign) = ((ix.setForeign s).1, some (ix.setForeign s).2) := by
  cases ix with
  | listed ix => rfl
  | linked ix => rw [attempt, Linked.attemptSet_eq]; rfl

theorem attempt_delete (ix : Index) (s : Symbol) :
    ix.attempt (.delete s) = ix.leaves (ix.delete s) := by
  cases ix with
  | listed ix =>
    simp only [attempt, Listed.attemptDelete, delete, Listed.delete]
    split <;> rfl
  | linked ix =>
    simp only [attempt, Linked.attemptDelete_eq, delete, Linked.delete]
    split <;> rfl

theorem attempt_load (ix : Index) (data : Snapshot) :
    ix.attempt (.load data) = ix.leaves (ix.load data) := by
  cases ix with
  | listed ix =>
    have hset : ∀ (k : Listed) (e : Symbol × Info),
        k.attemptSet e.1 (.info e.2) = (k.set e.1 e.2, none) := fun _ _ => rfl
    simp only [attempt, Listed.attemptLoad, load, Listed.load, attemptEach_of_none hset]
    split <;> rfl
  | linked ix => rw [attempt, Linked.attemptLoad_eq]; rfl

/-- The step of a run that a change is. -/
def Change.step : Change → Step
  | .set s (.info i) => .set s i
  | .set s .foreign => .setForeign s
  | .delete s => .delete s
  | .load data => .load data

theorem attempt_fst (ix : Index) (c : Change) : (ix.attempt c).1 = c.step.apply ix := by
  have hleaves : ∀ r : Except IndexError Index, (ix.leaves r).1 = r.toOption.getD ix := by
    intro r
    cases r <;> rfl
  cases c with
  | set s x =>
    cases x with
    | info i => rw [attempt_set_info]; rfl
    | foreign => rw [attempt_set_foreign]; rfl
  | delete s => rw [attempt_delete, hleaves]; rfl
  | load data => rw [attempt_load, hleaves]; rfl

/-! ## Refusals -/

/-- When a change fails, and with which error: what is stored has to be an info, what is forgotten
has to be there, and a listed index takes over snapshots of its own kind only. -/
def Change.RefusedWith (ix : Index) (e : IndexError) : Change → Prop
  | .set _ (.info _) => False
  | .set _ .foreign => e = match ix.kind with
    | .listed => .notAnInfo
    | .linked => .noDefinitions
  | .delete s => s ∉ ix.symbols ∧ e = .missing s
  | .load data => ix.kind = .listed ∧ data.kind ≠ Listed.kindName ∧ e = .wrongKind

theorem contains_infos_iff {ix : Listed} {s : Symbol} :
    ix.infos.contains s = true ↔ s ∈ (Index.listed ix).symbols :=
  OrderedMap.contains_iff

theorem contains_cards_iff {ix : Linked} {s : Symbol} :
    ix.cards.contains s = true ↔ s ∈ (Index.linked ix).symbols := by
  rw [OrderedMap.contains_iff, symbols, items, Linked.items, List.map_map]
  rfl

theorem attempt_snd_iff {ix : Index} {c : Change} {e : IndexError} :
    (ix.attempt c).2 = some e ↔ c.RefusedWith ix e := by
  cases c with
  | set s x =>
    cases x with
    | info i => simp [attempt_set_info, Change.RefusedWith]
    | foreign =>
      rw [attempt_set_foreign, Option.some.injEq, eq_comm]
      cases ix <;> rfl
  | delete s =>
    rw [attempt_delete]
    cases ix with
    | listed ix =>
      simp only [delete, Listed.delete, Change.RefusedWith, ← contains_infos_iff]
      split
      · next hs => simp [leaves, Except.map, hs]
      · next hs => simp [leaves, Except.map, hs, eq_comm]
    | linked ix =>
      simp only [delete, Linked.delete, Change.RefusedWith, ← contains_cards_iff]
      split
      · next hs => simp [leaves, Except.map, hs]
      · next hs => simp [leaves, Except.map, hs, eq_comm]
  | load data =>
    rw [attempt_load]
    cases ix with
    | listed ix =>
      simp only [load, Listed.load, Change.RefusedWith]
      split
      · next hk => simp [leaves, Except.map, hk]
      · next hk => simp [leaves, Except.map, hk, kind, eq_comm]
    | linked ix => simp [load, leaves, Change.RefusedWith, kind]

/-- A refused change leaves the index as it was, unless something that is no info was to be
stored. -/
theorem attempt_fst_of_refused {ix : Index} {c : Change} {e : IndexError}
    (h : (ix.attempt c).2 = some e) :
    (ix.attempt c).1 = ix ∨ ∃ k s, ix = .linked k ∧ c = .set s .foreign ∧
      (ix.attempt c).1 = .linked (k.drop s) := by
  have hleaves : ∀ r : Except IndexError Index,
      (ix.leaves r).2 = some e → (ix.leaves r).1 = ix := by
    intro r hr
    cases r with
    | ok _ => cases hr
    | error _ => rfl
  cases c with
  | set s x =>
    cases x with
    | info i => rw [attempt_set_info] at h; cases h
    | foreign =>
      rw [attempt_set_foreign]
      cases ix with
      | listed ix => exact .inl rfl
      | linked k => exact .inr ⟨k, s, rfl, rfl, rfl⟩
  | delete s => rw [attempt_delete] at h ⊢; exact .inl (hleaves _ h)
  | load data => rw [attempt_load] at h ⊢; exact .inl (hleaves _ h)

/-! ## What is left -/

/-- Two indexes have the same symbols with the same entries in the same order, and find the same
definition at every place. -/
structure ShowsAlike (ix ix' : Index) : Prop where
  items : ix.items = ix'.items
  find : ∀ l, (ix.find l).2 = (ix'.find l).2

/-- What is left of an index that has forgotten a symbol: all other entries, and what is found where
the symbol was not defined. -/
structure WithoutSymbol (s : Symbol) (ix left : Index) : Prop where
  items : left.items = ix.items.filter fun e => decide (e.1 ≠ s)
  find_none : ∀ l, ix.HasAt s l → (left.find l).2 = none
  find_eq : ∀ l, ¬ ix.HasAt s l → (left.find l).2 = (ix.find l).2

theorem withoutSymbol_drop {k : Linked} (hk : k.Keyed) (h : k.Owned) (s : Symbol) :
    WithoutSymbol s (.linked k) (.linked (k.drop s)) := by
  have hfind : ∀ l, ((Index.linked (k.drop s)).find l).2 =
      if (k.definitionAt? s l).isSome then none else ((Index.linked k).find l).2 := fun l =>
    Linked.find_drop h s l
  have hsome : ∀ l, (k.definitionAt? s l).isSome ↔ (Index.linked k).HasAt s l := fun l => by
    rw [hasAt_linked hk, Option.isSome_iff_exists]
    rfl
  refine ⟨Linked.items_drop k s, fun l hl => ?_, fun l hl => ?_⟩
  · rw [hfind, if_pos ((hsome l).2 hl)]
  · rw [hfind, if_neg fun hs => hl ((hsome l).1 hs)]

theorem WithoutSymbol.not_showsAlike {s : Symbol} {ix left : Index} (h : WithoutSymbol s ix left)
    (hs : s ∈ ix.symbols) : ¬ left.ShowsAlike ix := by
  intro halike
  obtain ⟨e, he, hes⟩ := List.mem_map.1 hs
  rw [← halike.items, h.items] at he
  exact of_decide_eq_true (List.mem_filter.1 he).2 hes

/-- After every `run`, a change that `attempt` refuses leaves an index that `ShowsAlike`, unless a
linked index was to store something `.foreign` for a symbol that it has. Then the index is left
`WithoutSymbol`. -/
theorem refused_unchanged_iff (kind : IndexKind) (steps : List Step) {c : Change} {e : IndexError}
    {left : Index} (h : (run kind steps).attempt c = (left, some e)) :
    c.RefusedWith (run kind steps) e ∧
    (left.ShowsAlike (run kind steps) ↔
      ¬ ∃ s ∈ (run kind steps).symbols, kind = .linked ∧ c = .set s .foreign) ∧
    ∀ s ∈ (run kind steps).symbols, kind = .linked → c = .set s .foreign →
      WithoutSymbol s (run kind steps) left := by
  have hrefused : ((run kind steps).attempt c).2 = some e := by rw [h]
  have hleft : ((run kind steps).attempt c).1 = left := by rw [h]
  have hforgotten : ∀ s, kind = .linked → c = .set s .foreign →
      WithoutSymbol s (run kind steps) left := by
    rintro s rfl rfl
    obtain ⟨k, hrun, howned, -⟩ := owners_run steps
    have hkeyed := run_keyed .linked steps
    rw [attempt_set_foreign] at hleft
    rw [hrun] at hkeyed hleft ⊢
    rw [← hleft]
    exact withoutSymbol_drop hkeyed howned s
  refine ⟨attempt_snd_iff.1 hrefused, ⟨?_, fun hnot => ?_⟩, fun s _ => hforgotten s⟩
  · rintro halike ⟨s, hs, hkind, hc⟩
    exact (hforgotten s hkind hc).not_showsAlike hs halike
  · rcases attempt_fst_of_refused hrefused with hsame | ⟨k, s, hrun, rfl, hdrop⟩
    · rw [← hleft, hsame]
      exact ⟨rfl, fun _ => rfl⟩
    · -- the symbol is not there, so that there is nothing to forget
      have hkind : kind = .linked := by rw [← kind_run kind steps, hrun]; rfl
      have habsent : s ∉ (run kind steps).symbols := fun hs => hnot ⟨s, hs, hkind, rfl⟩
      rw [hrun, ← contains_cards_iff] at habsent
      rw [← hleft, hdrop, hrun, Linked.drop_of_not_contains habsent]
      exact ⟨rfl, fun _ => rfl⟩

/-- Something that is no info is refused for a function that is there: a listed index keeps the
function and finds it, a linked one has forgotten it. -/
theorem refused_unchanged_iff_oneFunction :
    let steps : List Step := [.addDefinition (.function "f") (.bare (Linked.lineAt 1))]
    (∃ left, (run .listed steps).attempt (.set (.function "f") .foreign) =
      (left, some .notAnInfo) ∧ left.ShowsAlike (run .listed steps)) ∧
    ∃ left, (run .linked steps).attempt (.set (.function "f") .foreign) =
      (left, some .noDefinitions) ∧ ¬ left.ShowsAlike (run .linked steps) ∧
      left.symbols = [] ∧ (left.find (Linked.lineAt 1)).2 = none := by
  intro steps
  have hlisted : (run .listed steps).attempt (.set (.function "f") .foreign) =
      (run .listed steps, some .notAnInfo) := by rfl
  have hlinked : (run .linked steps).attempt (.set (.function "f") .foreign) =
      (.linked .empty, some .noDefinitions) := by decide +kernel
  have hs : .function "f" ∈ (run .linked steps).symbols := by decide +kernel
  obtain ⟨-, hiff, -⟩ := refused_unchanged_iff .listed steps hlisted
  obtain ⟨-, hiff', -⟩ := refused_unchanged_iff .linked steps hlinked
  refine ⟨⟨_, hlisted, hiff.2 ?_⟩, _, hlinked, fun halike => hiff'.1 halike ?_, rfl, rfl⟩
  · rintro ⟨_, _, hkind, _⟩
    cases hkind
  · exact ⟨_, hs, rfl, rfl⟩

end Index

end CallAtlas
