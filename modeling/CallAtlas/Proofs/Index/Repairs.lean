import CallAtlas.Proofs.Index.Reading

/-! # Searches after removals by hand

Definitions and cards can be taken out of the tables of a linked index by hand (`Removal`). The
table of owners does not hear of it (`owners_removed`), so an owner may be noted for a place where
it is no longer defined. A search that meets such an owner is the search in the index whose owners
were read off its cards again (`find_of_stale`). It tells only what is there. But before, it asks
for the owner's card, and an owner that was taken out gets an empty one.

* `find_removed_iff`: a search leaves the symbols and their records as they are iff the symbol that
  the place belonged to before the removals is still in the index. -/

namespace CallAtlas

namespace Linked

variable {ix : Linked} {s t : Symbol} {l k : Location}

/-! ## Removals -/

/-- What can be taken out of the tables of an index by hand. -/
inductive Removal where
  | definition (s : Symbol) (l : Location)
  | card (s : Symbol)

/-- The index after a removal. -/
def Removal.apply (ix : Linked) : Removal → Linked
  | .definition s l => ix.dropDefinition s l
  | .card s => ix.dropCard s

/-- The index after some removals. -/
def removed (ix : Linked) (removals : List Removal) : Linked := removals.foldl Removal.apply ix

theorem Removal.owners_apply (ix : Linked) (r : Removal) : (r.apply ix).owners = ix.owners := by
  cases r <;> rfl

/-- Removals leave the table of owners as it is. -/
theorem owners_removed (ix : Linked) (removals : List Removal) :
    (ix.removed removals).owners = ix.owners := by
  induction removals generalizing ix with
  | nil => rfl
  | cons r removals ih => exact (ih (r.apply ix)).trans (r.owners_apply ix)

/-! ## Asking for a card -/

theorem definitionAt?_onCard_id : (ix.onCard s id).definitionAt? t k = ix.definitionAt? t k := by
  rw [definitionAt?_onCard]
  split
  · next hst =>
    rw [hst]
    exact card_definitions ix t k
  · rfl

theorem items_onCard_of_mem (h : s ∈ ix.cards.keys) : (ix.onCard s id).items = ix.items := by
  obtain ⟨c, hc⟩ := OrderedMap.mem_keys_iff.1 h
  rw [onCard_of_fixed hc rfl]

/-- An empty card is made for a symbol without one. -/
theorem items_onCard_of_not_mem (h : s ∉ ix.cards.keys) :
    (ix.onCard s id).items = ix.items ++ [(s, .empty)] := by
  have hnone : ix.cards.get? s = none := OrderedMap.get?_eq_none_iff.2 h
  have hentries : (ix.onCard s id).cards.entries = ix.cards.entries ++ [(s, .empty)] := by
    rw [onCard, OrderedMap.modify, hnone]
    exact OrderedMap.entries_insert_of_not_mem _ h
  rw [items, hentries, List.map_append]
  rfl

/-! ## Searches -/

/-- An index in which a place has an owner that is not defined there, after the search has asked for
the owner's card and read the owners off the cards again. -/
def repaired (ix : Linked) (s : Symbol) : Linked := (ix.onCard s id).reown

theorem definitionAt?_repaired : (ix.repaired s).definitionAt? t k = ix.definitionAt? t k :=
  definitionAt?_onCard_id

theorem defines_repaired : (ix.repaired s).Defines l ↔ ix.Defines l := by
  simp only [Defines, Holds, definitionAt?_repaired]

theorem owned_repaired (ix : Linked) (s : Symbol) : (ix.repaired s).Owned := owned_reown _

/-- A search that meets a stale owner is the search in the repaired index. -/
theorem find_of_stale (hs : ix.owners.get? l = some s) (hd : ix.definitionAt? s l = none) :
    ix.find l = (ix.repaired s).find l := by
  rw [find_of_owned (owned_repaired ix s)]
  simp only [find, hs, hd]
  rfl

/-- What a search does, whatever became of the index: there is no owner, or the owner is defined at
the place, or the index is repaired first. -/
theorem find_cases (ix : Linked) (l : Location) :
    (ix.owners.get? l = none ∧ ix.find l = (ix, none)) ∨
    (∃ s d, ix.owners.get? l = some s ∧ ix.definitionAt? s l = some d ∧
      ix.find l = (ix, some (s, d))) ∨
    ∃ s, ix.owners.get? l = some s ∧ ix.definitionAt? s l = none ∧
      ix.find l = (ix.repaired s).find l := by
  cases hs : ix.owners.get? l with
  | none => exact .inl ⟨rfl, by simp only [find, hs]⟩
  | some s =>
    cases hd : ix.definitionAt? s l with
    | some d => exact .inr (.inl ⟨s, d, rfl, hd, by simp only [find, hs, hd]⟩)
    | none => exact .inr (.inr ⟨s, rfl, hd, find_of_stale hs hd⟩)

theorem Owned.find_eq_some_iff (h : ix.Owned) {d : Definition} : (ix.find l).2 = some (s, d) ↔
    ix.owners.get? l = some s ∧ ix.definitionAt? s l = some d := by
  rw [find_of_owned h, Option.bind_eq_some_iff]
  constructor
  · rintro ⟨t, ht, hd⟩
    obtain ⟨e, he, heq⟩ := Option.map_eq_some_iff.1 hd
    cases heq
    exact ⟨ht, he⟩
  · rintro ⟨hs, hd⟩
    exact ⟨s, hs, by rw [hd]; rfl⟩

theorem Owned.isSome_find (h : ix.Owned) : (ix.find l).2.isSome ↔ l ∈ ix.owners.keys := by
  rw [Option.isSome_iff_exists, OrderedMap.mem_keys_iff]
  constructor
  · rintro ⟨⟨s, d⟩, hfound⟩
    exact ⟨s, (h.find_eq_some_iff.1 hfound).1⟩
  · rintro ⟨s, hs⟩
    obtain ⟨d, hd⟩ := h l s hs
    exact ⟨(s, d), h.find_eq_some_iff.2 ⟨hs, hd⟩⟩

/-- Whatever is found is there. -/
theorem definitionAt?_of_find {d : Definition} (h : (ix.find l).2 = some (s, d)) :
    ix.definitionAt? s l = some d := by
  rcases find_cases ix l with ⟨-, hfind⟩ | ⟨t, e, -, he, hfind⟩ | ⟨t, -, -, hfind⟩
  · rw [hfind] at h
    cases h
  · rw [hfind] at h
    cases h
    exact he
  · rw [hfind] at h
    rw [← definitionAt?_repaired]
    exact ((owned_repaired ix t).find_eq_some_iff.1 h).2

/-- Something is found where some owner is noted and some symbol is defined, be it another one. -/
theorem isSome_find_iff (ix : Linked) (l : Location) :
    (ix.find l).2.isSome ↔ l ∈ ix.owners.keys ∧ ix.Defines l := by
  rcases find_cases ix l with ⟨hnone, hfind⟩ | ⟨s, d, hs, hd, hfind⟩ | ⟨s, hs, -, hfind⟩
  · have hkeys : l ∉ ix.owners.keys := OrderedMap.get?_eq_none_iff.1 hnone
    simp [hfind, hkeys]
  · have hkeys : l ∈ ix.owners.keys := OrderedMap.mem_keys_iff.2 ⟨s, hs⟩
    have hdefines : ix.Defines l := ⟨s, d, hd⟩
    simp [hfind, hkeys, hdefines]
  · have hkeys : l ∈ ix.owners.keys := OrderedMap.mem_keys_iff.2 ⟨s, hs⟩
    have hrepaired : l ∈ (ix.repaired s).owners.keys ↔ ix.Defines l := by
      rw [← defines_repaired (s := s)]
      refine ((moves_reown ix (ix.onCard s id)).owner_iff l).trans ?_
      rw [not_not]
      exact ⟨fun h => h.elim id And.right, .inl⟩
    rw [hfind, (owned_repaired ix s).isSome_find, hrepaired, and_iff_right hkeys]

/-- A second search finds the same and changes nothing more. -/
theorem find_again (ix : Linked) (l : Location) : (ix.find l).1.find l = ix.find l := by
  rcases find_cases ix l with ⟨-, hfind⟩ | ⟨s, d, -, -, hfind⟩ | ⟨s, -, -, hfind⟩
  · simp only [hfind]
  · simp only [hfind]
  · have hsame : ((ix.repaired s).find l).1 = ix.repaired s := by
      rw [find_of_owned (owned_repaired ix s)]
    rw [hfind, hsame]

/-- The symbols and their records stay as they are where the owner of the place, if there is one, is
in the index. -/
theorem items_find_of_mem (h : ∀ s, ix.owners.get? l = some s → s ∈ ix.cards.keys) :
    (ix.find l).1.items = ix.items := by
  rcases find_cases ix l with ⟨-, hfind⟩ | ⟨s, d, -, -, hfind⟩ | ⟨s, hs, -, hfind⟩
  · rw [hfind]
  · rw [hfind]
  · rw [hfind, find_of_owned (owned_repaired ix s)]
    exact items_onCard_of_mem (h s hs)

/-- An owner that is not in the index is put into it, with nothing known about it. -/
theorem items_find_of_not_mem (hs : ix.owners.get? l = some s) (h : s ∉ ix.cards.keys) :
    (ix.find l).1.items = ix.items ++ [(s, .empty)] := by
  have hnone : ix.definitionAt? s l = none := by
    rw [definitionAt?, OrderedMap.get?_eq_none_iff.2 h]
    rfl
  rw [find_of_stale hs hnone, find_of_owned (owned_repaired ix s)]
  exact items_onCard_of_not_mem h

end Linked

namespace Index

open Linked (Removal Reading)

/-- After every `run` and any removals by hand (`removed`), what `Reading.find` finds at a place is
there, something is found iff the place belonged to a symbol before the removals and some symbol is
still defined there, and a second search finds the same and changes nothing. The search leaves the
`items`, all symbols with their records in order, iff the symbol that the place belonged to is still
in the index. Otherwise the index has that symbol again, with nothing known about it. -/
theorem find_removed_iff (steps : List Step) (removals : List Removal) (l : Location) :
    ∃ before ix found after, run .linked steps = .linked before ∧
      before.removed removals = ix ∧ (Reading.find l).run ix = (found, after) ∧
      (∀ s d, found = some (s, d) → ix.definitionAt? s l = some d) ∧
      (found.isSome ↔ (before.find l).2.isSome ∧ ∃ s, (ix.definitionAt? s l).isSome) ∧
      (Reading.find l).run after = (found, after) ∧
      (after.items = ix.items ↔
        ∀ s d, (before.find l).2 = some (s, d) → s ∈ (Index.linked ix).symbols) ∧
      ∀ s d, (before.find l).2 = some (s, d) → s ∉ (Index.linked ix).symbols →
        after.items = ix.items ++ [(s, .empty)] := by
  obtain ⟨before, hrun, howned, -⟩ := owners_run steps
  have howners := Linked.owners_removed before removals
  generalize hix : before.removed removals = ix at howners
  have hkeys : ∀ s, s ∈ (Index.linked ix).symbols ↔ s ∈ ix.cards.keys := by
    intro s
    rw [symbols, items, Linked.items, List.map_map]
    rfl
  -- the owner before the removals is the one that the search meets
  have howner : ∀ s, ix.owners.get? l = some s ↔ ∃ d, (before.find l).2 = some (s, d) := by
    intro s
    rw [howners]
    constructor
    · intro hs
      obtain ⟨d, hd⟩ := howned l s hs
      exact ⟨d, howned.find_eq_some_iff.2 ⟨hs, hd⟩⟩
    · rintro ⟨d, hfound⟩
      exact (howned.find_eq_some_iff.1 hfound).1
  have hadded : ∀ s d, (before.find l).2 = some (s, d) → s ∉ (Index.linked ix).symbols →
      (ix.find l).1.items = ix.items ++ [(s, .empty)] := fun s d hfound hs =>
    Linked.items_find_of_not_mem ((howner s).2 ⟨d, hfound⟩) fun hmem => hs ((hkeys s).2 hmem)
  refine ⟨before, ix, (ix.find l).2, (ix.find l).1, hrun, hix, Linked.run_find ix l,
    fun s d => Linked.definitionAt?_of_find, ?_, ?_, ⟨fun hsame s d hfound => ?_, fun hmem => ?_⟩,
    hadded⟩
  · rw [Linked.isSome_find_iff, howned.isSome_find, howners]
    simp only [Linked.Defines, Linked.Holds, Option.isSome_iff_exists]
  · rw [Linked.run_find, Linked.find_again]
    rfl
  · by_contra hs
    rw [hadded s d hfound hs] at hsame
    exact absurd hsame (by simp)
  · refine Linked.items_find_of_mem fun s hs => ?_
    obtain ⟨d, hfound⟩ := (howner s).1 hs
    exact (hkeys s).1 (hmem s d hfound)

/-- A method and then a function are defined at one place. -/
def sharedLine : Linked :=
  (Linked.empty.addDefinition (.method "f" none) (.bare (Linked.lineAt 1))).addDefinition
    (.function "f") (.bare (Linked.lineAt 1))

/-- If the definition of the function is taken out, the method is found and nothing changes. If the
function is taken out as a whole, the method is found as well, but then the function is in the index
again. -/
theorem find_removed_iff_sharedLine :
    (∃ after, (Reading.find (Linked.lineAt 1)).run
        (sharedLine.removed [.definition (.function "f") (Linked.lineAt 1)]) =
          (some (.method "f" none, .bare (Linked.lineAt 1)), after) ∧
      after.items =
        [(.method "f" none, ⟨[.bare (Linked.lineAt 1)], []⟩), (.function "f", .empty)]) ∧
    ∃ after, (Reading.find (Linked.lineAt 1)).run (sharedLine.removed [.card (.function "f")]) =
        (some (.method "f" none, .bare (Linked.lineAt 1)), after) ∧
      (sharedLine.removed [.card (.function "f")]).items =
        [(.method "f" none, ⟨[.bare (Linked.lineAt 1)], []⟩)] ∧
      after.items =
        [(.method "f" none, ⟨[.bare (Linked.lineAt 1)], []⟩), (.function "f", .empty)] := by
  let steps : List Step := [.addDefinition (.method "f" none) (.bare (Linked.lineAt 1)),
    .addDefinition (.function "f") (.bare (Linked.lineAt 1))]
  have hsteps : run .linked steps = .linked sharedLine := rfl
  have howner : (sharedLine.find (Linked.lineAt 1)).2 =
      some (.function "f", .bare (Linked.lineAt 1)) := by decide +kernel
  constructor
  · obtain ⟨before, ix, found, after, hrun, rfl, hfind, -, -, -, hsame, -⟩ :=
      find_removed_iff steps [.definition (.function "f") (Linked.lineAt 1)] (Linked.lineAt 1)
    obtain rfl := Index.linked.inj (hsteps.symm.trans hrun)
    have hfound : found = some (.method "f" none, .bare (Linked.lineAt 1)) :=
      (congrArg Prod.fst hfind).symm.trans (by decide +kernel)
    refine ⟨after, hfound ▸ hfind, (hsame.2 fun s d hs => ?_).trans (by decide +kernel)⟩
    rw [howner] at hs
    cases hs
    decide +kernel
  · obtain ⟨before, ix, found, after, hrun, rfl, hfind, -, -, -, -, hadded⟩ :=
      find_removed_iff steps [.card (.function "f")] (Linked.lineAt 1)
    obtain rfl := Index.linked.inj (hsteps.symm.trans hrun)
    have hfound : found = some (.method "f" none, .bare (Linked.lineAt 1)) :=
      (congrArg Prod.fst hfind).symm.trans (by decide +kernel)
    exact ⟨after, hfound ▸ hfind, by decide +kernel,
      (hadded _ _ howner (by decide +kernel)).trans (by decide +kernel)⟩

end Index

end CallAtlas
