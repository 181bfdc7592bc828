import CallAtlas.Index.Basic
import CallAtlas.Proofs.Index.Links

/-! # Records at their own places

Indexes that are loaded have their records at their own places (`Linked.Keyed.load`), whatever the
snapshot. A definition is then found by its place (`Keyed.definitionAt?_linked`) and stands in the
snapshot (`mem_snapshot_of_definitionAt?`), and two such indexes answer every question alike iff
they tell the same in the same order (`Keyed.answer_eq_iff`). -/

namespace CallAtlas

namespace Card

theorem location_of_ofInfo_definitions (i : Info) :
    ∀ l d, (ofInfo i).definitions.get? l = some d → d.location = l :=
  OrderedMap.key_of_get?_foldl_insert Definition.location i.definitions (m := .empty)
    fun _ _ h => by rw [OrderedMap.get?_empty] at h; cases h

theorem location_of_ofInfo_references (i : Info) :
    ∀ l r, (ofInfo i).references.get? l = some r → r.location = l :=
  OrderedMap.key_of_get?_foldl_insert Reference.location i.references (m := .empty)
    fun _ _ h => by rw [OrderedMap.get?_empty] at h; cases h

end Card

namespace Linked

variable {ix : Linked}

theorem get?_cards_set (ix : Linked) (s t : Symbol) (i : Info) :
    (ix.set s i).cards.get? t = if s = t then some (Card.ofInfo i) else ix.cards.get? t := by
  rw [set, OrderedMap.get?_insert]
  split
  · rfl
  · next hst =>
    unfold drop
    split
    · rfl
    · rw [OrderedMap.get?_erase, if_neg hst]

namespace Keyed

theorem set (h : ix.Keyed) (s : Symbol) (i : Info) : (ix.set s i).Keyed := by
  refine ⟨fun t l d hd => ?_, fun t l r hr => ?_⟩
  · rw [definitionAt?, get?_cards_set] at hd
    split at hd
    · exact Card.location_of_ofInfo_definitions i l d hd
    · exact h.definition t l d hd
  · rw [referenceAt?, get?_cards_set] at hr
    split at hr
    · exact Card.location_of_ofInfo_references i l r hr
    · exact h.reference t l r hr

theorem load (h : ix.Keyed) (data : Snapshot) : (ix.load data).Keyed := by
  have hset : ∀ (items : List (Symbol × Info)) (ix : Linked), ix.Keyed →
      (items.foldl (fun ix e => ix.set e.1 e.2) ix).Keyed := by
    intro items
    induction items with
    | nil => exact fun _ h => h
    | cons e items ih => exact fun ix h => ih _ (Keyed.set h e.1 e.2)
  exact ⟨(hset data.entries ix h).definition, (hset data.entries ix h).reference⟩

/-- A place is looked up among all definitions of a symbol as in its table. -/
theorem definitionAt?_linked (h : ix.Keyed) (s : Symbol) (l : Location) :
    (Index.linked ix).definitionAt? s l = ix.definitionAt? s l := by
  rw [Index.definitionAt?, Index.definitions, definitions, info?, definitionAt?]
  cases hc : ix.cards.get? s with
  | none => rfl
  | some c =>
    refine OrderedMap.find?_values Definition.location (fun k d hd => h.definition s k d ?_) l
    rw [definitionAt?, hc]
    exact hd

end Keyed

/-- A definition without calls only changes what is known at its place. -/
theorem definitionAt?_addDefinition (ix : Linked) (s t : Symbol) (l : Location) {d : Definition}
    (hd : d.calls = []) : (ix.addDefinition s d).definitionAt? t l =
      if s = t ∧ d.location = l then some (((ix.definitionAt? t l).getD (.bare l)).absorb d)
      else ix.definitionAt? t l := by
  rw [addDefinition, hd, List.foldl_nil, definitionAt?_own, definitionAt?_onCard_addDefinition]

theorem mem_snapshot_of_definitionAt? {s : Symbol} {l : Location} {d : Definition}
    (h : ix.definitionAt? s l = some d) :
    ∃ i, (s, i) ∈ ix.snapshot.entries ∧ d ∈ i.definitions := by
  obtain ⟨c, hc, hd⟩ := Option.bind_eq_some_iff.1 h
  refine ⟨c.toInfo, List.mem_map.2 ⟨(s, c), OrderedMap.get?_eq_some_iff.1 hc, rfl⟩, ?_⟩
  exact List.mem_map.2 ⟨(l, d), OrderedMap.get?_eq_some_iff.1 hd, rfl⟩

/-! ## Source texts -/

theorem definitionAt?_setSource (ix : Linked) (s t : Symbol) (l k : Location) (text : Text) :
    (ix.setSource s l text).definitionAt? t k = if s = t ∧ l = k then
      (ix.definitionAt? t k).map fun d => { d with source := some text }
      else ix.definitionAt? t k := by
  unfold setSource
  split
  · next hnone =>
    split
    · next h =>
      obtain ⟨rfl, rfl⟩ := h
      rw [hnone]
      rfl
    · rfl
  · next d hd =>
    rw [definitionAt?_onCard]
    by_cases hs : s = t
    · obtain rfl := hs
      rw [if_pos rfl, OrderedMap.get?_insert, card_definitions]
      by_cases hl : l = k
      · obtain rfl := hl
        rw [if_pos rfl, if_pos ⟨rfl, rfl⟩, hd]
        rfl
      · rw [if_neg hl, if_neg fun h => hl h.2]
    · rw [if_neg hs, if_neg fun h => hs h.1]

/-- A source text that is known already changes nothing. -/
theorem setSource_of_source {s : Symbol} {l : Location} {d : Definition} {text : Text}
    (hd : ix.definitionAt? s l = some d) (hs : d.source = some text) :
    ix.setSource s l text = ix := by
  obtain ⟨c, hc, hdc⟩ := Option.bind_eq_some_iff.1 hd
  have hsame : { d with source := some text } = d := by rw [← hs]
  have hcard : { c with definitions := c.definitions.insert l d } = c := by
    rw [OrderedMap.insert_of_get? hdc]
  have hcards : ix.cards.insert s c = ix.cards := OrderedMap.insert_of_get? hc
  simp only [setSource, hd, hsame, onCard, OrderedMap.modify, hc, Option.getD_some, hcard, hcards]

/-! ## Answers -/

/-- A definition in an answer is the one that its symbol has at its place. -/
theorem Keyed.definitionAt?_of_answer [Library] (h : ix.Keyed) {q : Query} {answers : List Answer}
    (hq : ix.answer q = .ok answers) {a : Answer} (ha : a ∈ answers) {d : Definition}
    (hd : d ∈ a.2.definitions) : ix.definitionAt? a.1 d.location = some d := by
  have hcard : ∀ s c, ix.cards.get? s = some c → d ∈ c.definitions.values →
      ix.definitionAt? s d.location = some d := by
    intro s c hc hmem
    obtain ⟨e, he, rfl⟩ := List.mem_map.1 hmem
    have hget : ix.definitionAt? s e.1 = some e.2 := by
      rw [definitionAt?, hc]
      exact OrderedMap.get?_eq_some_iff.2 he
    rw [h.definition s e.1 e.2 hget]
    exact hget
  have hitem : a ∈ ix.items → ix.definitionAt? a.1 d.location = some d := by
    intro hmem
    obtain ⟨e, he, rfl⟩ := List.mem_map.1 hmem
    exact hcard e.1 e.2 (OrderedMap.get?_eq_some_iff.2 he) hd
  unfold answer at hq
  split at hq
  · cases hq
  · cases hq
    exact hitem (List.mem_filter.1 ha).1
  · split at hq
    · cases hq
      obtain ⟨i, hi, rfl⟩ := Option.map_eq_some_iff.1 (Option.mem_toList.1 ha)
      obtain ⟨c, hc, rfl⟩ := Option.map_eq_some_iff.1 hi
      exact hcard _ c hc hd
    · split at hq
      · cases hq; cases ha
      · next c hc =>
        split at hq
        · cases hq; cases ha
        · next e he =>
          cases hq
          obtain rfl := List.mem_singleton.1 ha
          obtain rfl := List.mem_singleton.1 hd
          exact hcard _ c hc (List.mem_map.2 ⟨_, OrderedMap.get?_eq_some_iff.1 he, rfl⟩)
    · cases hq; cases ha

theorem answer_emptyPattern [Library] (h : Library.FindsEmpty) (ix : Linked) :
    ix.answer (.byPattern "" .all) = .ok ix.items := by
  obtain ⟨occursIn, hsearch, hoccurs⟩ := h
  simp [answer, Query.test, hsearch, hoccurs, SymbolFilter.admits]

theorem answer_of_cards [Library] {ix' : Linked} (h : ix.cards = ix'.cards) (q : Query) :
    ix.answer q = ix'.answer q := by
  simp only [answer, items, info?, h]

/-- An index with its records at their own places is determined by what it tells. -/
theorem Keyed.cards_of_items {ix' : Linked} (h : ix.Keyed) (h' : ix'.Keyed)
    (hitems : ix.items = ix'.items) : ix.cards = ix'.cards := by
  rw [← cards_load_snapshot h, ← cards_load_snapshot h', snapshot, hitems]
  rfl

theorem Keyed.answer_eq_iff [Library] (hempty : Library.FindsEmpty) {ix' : Linked} (h : ix.Keyed)
    (h' : ix'.Keyed) :
    (∀ q, ix.answer q = ix'.answer q) ↔ ix.items = ix'.items := by
  constructor
  · intro hq
    have hall := hq (.byPattern "" .all)
    rw [answer_emptyPattern hempty, answer_emptyPattern hempty] at hall
    exact Except.ok.inj hall
  · exact fun hitems => answer_of_cards (h.cards_of_items h' hitems)

end Linked

end CallAtlas
