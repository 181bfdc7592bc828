import CallAtlas.Library.Standard
import CallAtlas.Proofs.Index.Owners
import Mathlib.Data.List.Pairwise

/-! # Both kinds of index

The contents of a linked index can be listed (`Index.asListed`). Where records stand at their own
places, the listing answers every question as the index does (`Keyed.answer_asListed`), and it finds
the same definition at a place where one symbol at most is defined and noted as the owner
(`Keyed.find?_asListed_eq`). Entries that name nothing twice (`DistinctPlaces`) become the same
contents in both kinds, with one owner for every place.

* `load_kinds_agree`: both kinds answer and find alike after such entries have been loaded. -/

namespace CallAtlas

/-- No symbol is listed twice, no place is defined twice by whatever symbols, and no symbol is
referred to twice from one place. -/
structure DistinctPlaces (entries : List (Symbol × Info)) : Prop where
  symbols : (entries.map Prod.fst).Nodup
  definitions : (entries.flatMap fun e => e.2.definitions.map Definition.location).Nodup
  references : ∀ e ∈ entries, (e.2.references.map Reference.location).Nodup

/-- Lists with records at distinct places are those of their card. -/
theorem Card.toInfo_ofInfo {i : Info} (hd : (i.definitions.map Definition.location).Nodup)
    (hr : (i.references.map Reference.location).Nodup) : (ofInfo i).toInfo = i := by
  rw [toInfo, ofInfo, OrderedMap.values_foldl_insert Definition.location hd,
    OrderedMap.values_foldl_insert Reference.location hr]

namespace Linked

variable {ix : Linked}

/-! ## The listing -/

theorem info?_asListed (ix : Linked) (s : Symbol) :
    (Index.linked ix).asListed.info? s = ix.info? s :=
  OrderedMap.get?_mapValues ix.cards _ s

namespace Keyed

theorem definitionsAt_toInfo (h : ix.Keyed) {s : Symbol} {c : Card}
    (hc : ix.cards.get? s = some c) (l : Location) :
    Listed.definitionsAt c.toInfo l = (c.definitions.get? l).toList :=
  OrderedMap.filter_values Definition.location (keyed_iff.1 h s c hc).1 l

/-- A linked index answers as its listing, which looks through all definitions of a symbol. -/
theorem answer_asListed [Library] (h : ix.Keyed) (q : Query) :
    (Index.linked ix).asListed.answer q = ix.answer q := by
  unfold Listed.answer answer
  cases q.test with
  | error e => rfl
  | ok test? =>
    cases test? with
    | some test => rfl
    | none =>
      cases q with
      | byKey s => simp only [info?_asListed]
      | fullDefinition s l =>
        simp only [info?_asListed, info?]
        cases hc : ix.cards.get? s with
        | none => rfl
        | some c =>
          simp only [Option.map_some, h.definitionsAt_toInfo hc]
          cases c.definitions.get? l <;> rfl
      | _ => rfl

theorem definitionAt?_of_find?_asListed (h : ix.Keyed) {l : Location} {s : Symbol}
    {d : Definition} (hfind : (Index.linked ix).asListed.find? l = some (s, d)) :
    ix.definitionAt? s l = some d := by
  obtain ⟨e, he, hfound⟩ := List.exists_of_findSome?_eq_some hfind
  obtain ⟨⟨t, c⟩, hc, rfl⟩ := List.mem_map.1 he
  obtain ⟨d', hd', heq⟩ := Option.map_eq_some_iff.1 hfound
  cases heq
  have hcard : ix.cards.get? t = some c := OrderedMap.get?_eq_some_iff.2 hc
  rw [definitionAt?, hcard]
  exact (OrderedMap.find?_values Definition.location (keyed_iff.1 h t c hcard).1 l).symm.trans hd'

/-- Where a place has one symbol at most, and this is noted, the first definition that the listing
finds there is the owner's. -/
theorem find?_asListed_eq (h : ix.Keyed) (howned : ix.Owned) {l : Location}
    (hnoted : ix.Defines l → l ∈ ix.owners.keys)
    (hone : ∀ s t, ix.Holds (.definition ⟨s, l⟩) → ix.Holds (.definition ⟨t, l⟩) → s = t) :
    (Index.linked ix).asListed.find? l = (ix.find l).2 := by
  rw [find_of_owned howned]
  cases hs : ix.owners.get? l with
  | none =>
    have hnot : ¬ ix.Defines l := fun hd => OrderedMap.get?_eq_none_iff.1 hs (hnoted hd)
    rw [← Index.find?_asListed h] at hnot
    simpa using hnot
  | some s =>
    obtain ⟨d, hd⟩ := howned l s hs
    have hd : ix.definitionAt? s l = some d := hd
    obtain ⟨⟨t, e⟩, hfind⟩ := Option.isSome_iff_exists.1 ((Index.find?_asListed h l).2 ⟨s, d, hd⟩)
    have he := h.definitionAt?_of_find?_asListed hfind
    obtain rfl : s = t := hone s t ⟨d, hd⟩ ⟨e, he⟩
    rw [hd] at he
    rw [hfind, ← Option.some.inj he, Option.bind_some, hd]
    rfl

end Keyed

/-! ## Loading -/

section
variable {data : Snapshot} (h : DistinctPlaces data.entries)
include h

/-- Entries that name nothing twice are told again in their order. -/
theorem items_load : (Linked.empty.load data).items = data.entries := by
  have hinfo : ∀ e ∈ data.entries, (Card.ofInfo e.2).toInfo = e.2 := fun e he =>
    Card.toInfo_ofInfo ((List.nodup_flatMap.1 h.definitions).1 e he) (h.references e he)
  rw [items, entries_cards_load h.symbols, List.map_map]
  conv => rhs; rw [← List.map_id data.entries]
  exact List.map_congr_left fun e he => Prod.ext rfl (hinfo e he)

theorem exists_entry_of_holds {s : Symbol} {l : Location}
    (hs : (Linked.empty.load data).Holds (.definition ⟨s, l⟩)) :
    ∃ e ∈ data.entries, e.1 = s ∧ l ∈ e.2.definitions.map Definition.location := by
  obtain ⟨d, hd⟩ := hs
  obtain ⟨c, hc, -⟩ := Option.bind_eq_some_iff.1 hd
  have hmem := OrderedMap.get?_eq_some_iff.1 hc
  rw [entries_cards_load h.symbols] at hmem
  obtain ⟨e, he, heq⟩ := List.mem_map.1 hmem
  cases heq
  exact ⟨e, he, rfl, List.mem_map.2 (mem_keys_ofInfo.1 ((mem_keys_definitions hc l).2 ⟨d, hd⟩))⟩

/-- No place has two symbols. -/
theorem eq_of_holds_load {s t : Symbol} {l : Location}
    (hs : (Linked.empty.load data).Holds (.definition ⟨s, l⟩))
    (ht : (Linked.empty.load data).Holds (.definition ⟨t, l⟩)) : s = t := by
  obtain ⟨e, he, rfl, hle⟩ := exists_entry_of_holds h hs
  obtain ⟨f, hf, rfl, hlf⟩ := exists_entry_of_holds h ht
  by_contra hne
  have hsymm : Std.Symm (Function.onFun List.Disjoint fun e : Symbol × Info =>
      e.2.definitions.map Definition.location) := ⟨fun _ _ hd _ ha hb => hd hb ha⟩
  have hapart := (List.nodup_flatMap.1 h.definitions).2.forall he hf fun hef =>
    hne (congrArg Prod.fst hef)
  exact hapart hle hlf

end

end Linked

namespace Index

/-- Entries that have `DistinctPlaces` can be loaded into either kind of index. Both kinds then
`answer` every query alike, with the same answers in the same order or the same failure, and `find`
the same definition at every place. -/
theorem load_kinds_agree [Library] {entries : List (Symbol × Info)} (h : DistinctPlaces entries)
    (kind : Text) (metadata metadata' : Option Json) :
    ∃ listed linked, (empty .listed).load ⟨Listed.kindName, entries, metadata⟩ = .ok listed ∧
      (empty .linked).load ⟨kind, entries, metadata'⟩ = .ok linked ∧
      (∀ q, listed.answer q = linked.answer q) ∧ ∀ l, (listed.find l).2 = (linked.find l).2 := by
  obtain ⟨x, hload, hitems⟩ :=
    @exists_listed_load ⟨Listed.kindName, entries, metadata⟩ rfl h.symbols
  have hkeyed := Linked.Keyed.load .empty ⟨kind, entries, metadata'⟩
  have hlinked := @Linked.items_load ⟨kind, entries, metadata'⟩ h
  have hone := @Linked.eq_of_holds_load ⟨kind, entries, metadata'⟩ h
  have hnoted : ∀ l, (Linked.empty.load ⟨kind, entries, metadata'⟩).Defines l →
      l ∈ (Linked.empty.load ⟨kind, entries, metadata'⟩).owners.keys := fun l hl =>
    ((Linked.moves_reown .empty _).owner_iff l).2 (.inl hl)
  have howned : (Linked.empty.load ⟨kind, entries, metadata'⟩).Owned := Linked.owned_reown _
  have hload' : (empty .linked).load ⟨kind, entries, metadata'⟩ =
      .ok (.linked (Linked.empty.load ⟨kind, entries, metadata'⟩)) := rfl
  generalize Linked.empty.load ⟨kind, entries, metadata'⟩ = y at *
  -- the listed index is the listing of the linked one
  have hsame : x = (Index.linked y).asListed := by
    have hinfos : x.infos = (Index.linked y).asListed.infos :=
      OrderedMap.ext (hitems.trans hlinked.symm)
    cases x
    exact congrArg Listed.mk hinfos
  refine ⟨.listed x, .linked y, congrArg (Except.map Index.listed) hload, hload', fun q => ?_,
    fun l => ?_⟩
  · rw [hsame]
    exact hkeyed.answer_asListed q
  · rw [hsame]
    exact hkeyed.find?_asListed_eq howned (hnoted l) fun _ _ => hone

/-- A function with two definitions, of which the second calls a method of the same name. -/
def functionAndMethod : List (Symbol × Info) :=
  [(.function "f", ⟨[.bare (Linked.lineAt 1), ⟨Linked.lineAt 2, some "doc",
    [⟨.method "f" (some "A"), Linked.lineAt 3⟩], none, none⟩], []⟩),
   (.method "f" (some "A"), ⟨[.bare (Linked.lineAt 5)],
    [⟨Linked.lineAt 3, [⟨.function "f", Linked.lineAt 2⟩]⟩, ⟨Linked.lineAt 7, []⟩]⟩)]

/-- Both kinds tell one definition of the function, and find the method at its place. -/
theorem load_kinds_agree_functionAndMethod :
    letI := Library.standard
    DistinctPlaces functionAndMethod ∧ ∃ listed linked,
      (empty .listed).load ⟨Listed.kindName, functionAndMethod, none⟩ = .ok listed ∧
      (empty .linked).load ⟨Linked.kindName, functionAndMethod, none⟩ = .ok linked ∧
      listed.answer (.fullDefinition (.function "f") (Linked.lineAt 1)) =
        .ok [(.function "f", ⟨[.bare (Linked.lineAt 1)], []⟩)] ∧
      linked.answer (.fullDefinition (.function "f") (Linked.lineAt 1)) =
        .ok [(.function "f", ⟨[.bare (Linked.lineAt 1)], []⟩)] ∧
      (listed.find (Linked.lineAt 5)).2 =
        some (.method "f" (some "A"), .bare (Linked.lineAt 5)) ∧
      (linked.find (Linked.lineAt 5)).2 =
        some (.method "f" (some "A"), .bare (Linked.lineAt 5)) := by
  let _ := Library.standard
  have h : DistinctPlaces functionAndMethod :=
    ⟨by decide +kernel, by decide +kernel, by decide +kernel⟩
  obtain ⟨listed, linked, hlisted, hlinked, hanswer, hfind⟩ :=
    load_kinds_agree h Linked.kindName none none
  have hx : (empty .listed).load ⟨Listed.kindName, functionAndMethod, none⟩ =
      .ok (.listed ⟨.ofList functionAndMethod⟩) := rfl
  obtain rfl := Except.ok.inj (hlisted.symm.trans hx)
  have htold : (Index.listed ⟨.ofList functionAndMethod⟩).answer
      (.fullDefinition (.function "f") (Linked.lineAt 1)) =
        .ok [(.function "f", ⟨[.bare (Linked.lineAt 1)], []⟩)] := by rfl
  have hfound : ((Index.listed ⟨.ofList functionAndMethod⟩).find (Linked.lineAt 5)).2 =
      some (.method "f" (some "A"), .bare (Linked.lineAt 5)) := by decide +kernel
  exact ⟨h, _, linked, hlisted, hlinked, htold, hanswer _ ▸ htold, hfound, hfind _ ▸ hfound⟩

end Index

end CallAtlas
