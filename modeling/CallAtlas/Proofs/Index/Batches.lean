import CallAtlas.Proofs.Index.Additions
import CallAtlas.Proofs.Index.Places

/-! # Batches

A batch of infos is merged into a linked index symbol by symbol. Each info is put on a card of its
own first, where the last record of a place replaces those before (`latest`,
`OrderedMap.mem_values_foldl_insert`), and this card is merged into the one of the index, record by
record (`cards_onCard_absorb`). So the index holds afterwards what it held before and what the
latest records of the batch tell (`holds_update`).

* `update_merged_iff`: no call and no caller appears that neither the index nor the batch had, and
  all of the batch is merged iff the calls and callers of a record that is not the latest one of its
  place were known before or are named by the latest one too. -/

namespace CallAtlas

/-! ## The latest records -/

/-- The items of a list after which it has none with the same key. -/
def latest {κ α : Type} [DecidableEq κ] (key : α → κ) : List α → List α
  | [] => []
  | a :: rest => if key a ∈ rest.map key then latest key rest else a :: latest key rest

section
variable {κ α : Type} [DecidableEq κ] {key : α → κ} {items : List α} {a : α}

theorem latest_subset (key : α → κ) (items : List α) : latest key items ⊆ items := by
  induction items with
  | nil => exact fun _ h => h
  | cons a rest ih =>
    unfold latest
    split
    · exact fun _ h => .tail _ (ih h)
    · exact List.cons_subset_cons a ih

/-- Items that are put one after the other under their keys: the latest one of a key is left, and
under other keys what was there before. -/
theorem OrderedMap.get?_foldl_insert_iff {m : OrderedMap κ α} {k : κ} :
    (items.foldl (fun m b => m.insert (key b) b) m).get? k = some a ↔
      (a ∈ latest key items ∧ key a = k) ∨ (k ∉ items.map key ∧ m.get? k = some a) := by
  induction items generalizing m with
  | nil => simp [latest]
  | cons x rest ih =>
    have hrest : a ∈ latest key rest → key a ∈ rest.map key := fun h =>
      List.mem_map_of_mem (latest_subset key rest h)
    rw [List.foldl_cons, ih, get?_insert, latest, List.map_cons, List.mem_cons]
    by_cases hk : key x = k
    · -- the first item is left iff its key does not come again
      by_cases hx : k ∈ rest.map key
      · simp [hk, hx]
      · grind
    · grind

theorem OrderedMap.mem_values_foldl_insert :
    a ∈ (items.foldl (fun m b => m.insert (key b) b) (.empty : OrderedMap κ α)).values ↔
      a ∈ latest key items := by
  have hget : ∀ k, (k, a) ∈ (items.foldl (fun m b => m.insert (key b) b)
      (.empty : OrderedMap κ α)).entries ↔ a ∈ latest key items ∧ key a = k := by
    intro k
    rw [← get?_eq_some_iff, get?_foldl_insert_iff, get?_empty]
    simp
  rw [values, List.mem_map]
  constructor
  · rintro ⟨⟨k, b⟩, hb, rfl⟩
    exact ((hget k).1 hb).1
  · exact fun ha => ⟨(key a, a), (hget _).2 ⟨ha, rfl⟩, rfl⟩

end

/-- The latest records of an info. -/
def Info.latest (i : Info) : Info :=
  ⟨CallAtlas.latest Definition.location i.definitions,
   CallAtlas.latest Reference.location i.references⟩

namespace Linked

variable {ix : Linked}

/-! ## Merging one card -/

namespace Record

def symbol : Record → Symbol
  | .definition s _ | .reference s _ => s

/-- A record merged into a card. -/
def onto (c : Card) : Record → Card
  | .definition _ d => c.addDefinition d
  | .reference _ r => c.addReference r

theorem cards_put (ix : Linked) (r : Record) :
    (r.put ix).cards = ix.cards.modify r.symbol .empty fun c => r.onto c := by
  cases r <;> rfl

/-- The records of a symbol's info, references first. -/
def ofInfo (s : Symbol) (i : Info) : List Record :=
  i.references.map (.reference s) ++ i.definitions.map (.definition s)

theorem mem_ofInfo {s : Symbol} {i : Info} {r : Record} : r ∈ ofInfo s i ↔
    (∃ d ∈ i.definitions, r = .definition s d) ∨ ∃ x ∈ i.references, r = .reference s x := by
  simp [ofInfo, or_comm, eq_comm]

theorem exists_mem_ofInfo {s : Symbol} {i : Info} {p : Record → Prop} : (∃ r ∈ ofInfo s i, p r) ↔
    (∃ d ∈ i.definitions, p (.definition s d)) ∨ ∃ x ∈ i.references, p (.reference s x) := by
  simp [ofInfo, or_and_right, exists_or, or_comm]

end Record

theorem holds_of_cards {ix' : Linked} (h : ix.cards = ix'.cards) (f : Fact) :
    ix.Holds f ↔ ix'.Holds f := by
  cases f <;> simp only [Holds, Calls, CalledBy, Refers, definitionAt?, referenceAt?, h]

/-- Records of one symbol that are put on its card one after the other. -/
theorem cards_foldl_put {s : Symbol} {rs : List Record} (h : ∀ r ∈ rs, r.symbol = s)
    {cards : OrderedMap Symbol Card} {g : Card → Card} {ix : Linked}
    (hix : ix.cards = cards.modify s .empty g) :
    (rs.foldl Record.put ix).cards =
      cards.modify s .empty fun c => rs.foldl Record.onto (g c) := by
  induction rs generalizing ix g with
  | nil => exact hix
  | cons r rs ih =>
    rw [List.foldl_cons]
    refine ih (fun r hr => h r (.tail _ hr)) (g := fun c => r.onto (g c)) ?_
    rw [Record.cards_put, h r (.head _), hix, OrderedMap.modify_modify]

/-- A card is merged by putting its records on the other card. -/
theorem cards_onCard_absorb (ix : Linked) (s : Symbol) (c : Card) :
    (ix.onCard s (·.absorb c)).cards =
      ((Record.ofInfo s c.toInfo).foldl Record.put (ix.onCard s id)).cards := by
  have hsymbol : ∀ r ∈ Record.ofInfo s c.toInfo, r.symbol = s := by
    intro r hr
    rcases Record.mem_ofInfo.1 hr with ⟨d, -, rfl⟩ | ⟨x, -, rfl⟩ <;> rfl
  have hfold : ∀ c' : Card, (Record.ofInfo s c.toInfo).foldl Record.onto c' = c'.absorb c := by
    intro c'
    rw [Record.ofInfo, List.foldl_append, List.foldl_map, List.foldl_map]
    rfl
  have hid : (ix.onCard s id).cards = ix.cards.modify s .empty id := rfl
  rw [cards_foldl_put hsymbol hid]
  simp only [id_eq, hfold]
  rfl

theorem holds_onCard_absorb (s : Symbol) (c : Card) (f : Fact) :
    (ix.onCard s (·.absorb c)).Holds f ↔
      ix.Holds f ∨ f = .symbol s ∨ ∃ r ∈ Record.ofInfo s c.toInfo, r.Tells f := by
  have hmade : (ix.onCard s id).Holds f ↔ ix.Holds f ∨ f = .symbol s := by
    have hcard := fun t l => card_definitions ix t l
    have hcard' := fun t l => card_references ix t l
    cases f with
    | symbol t => exact mem_keys_onCard.trans (by simp [Holds])
    | _ =>
      simp only [Holds, Calls, CalledBy, Refers, definitionAt?_onCard, referenceAt?_onCard, id_eq,
        hcard, hcard', reduceCtorEq, or_false]
      split <;> simp_all
  rw [holds_of_cards (cards_onCard_absorb ix s c), holds_foldl_put, hmade, or_assoc]

/-! ## Merging a batch -/

/-- What the infos of a batch tell: their symbols, and all that their records tell. -/
def Told (more : OrderedMap Symbol Info) (f : Fact) : Prop :=
  ∃ s i, more.get? s = some i ∧ (f = .symbol s ∨ ∃ r ∈ Record.ofInfo s i, r.Tells f)

theorem mem_ofInfo_toInfo_ofInfo {s : Symbol} {i : Info} {r : Record} :
    r ∈ Record.ofInfo s (Card.ofInfo i).toInfo ↔ r ∈ Record.ofInfo s i.latest := by
  have hd : ∀ d, d ∈ (Card.ofInfo i).toInfo.definitions ↔ d ∈ i.latest.definitions := fun d =>
    OrderedMap.mem_values_foldl_insert
  have hr : ∀ x, x ∈ (Card.ofInfo i).toInfo.references ↔ x ∈ i.latest.references := fun x =>
    OrderedMap.mem_values_foldl_insert
  simp only [Record.mem_ofInfo, hd, hr]

/-- An update adds what the latest records of its infos tell. -/
theorem holds_update (ix : Linked) (more : OrderedMap Symbol Info) (f : Fact) :
    (ix.update more).Holds f ↔ ix.Holds f ∨ Told (more.mapValues fun _ i => i.latest) f := by
  have hfold : ∀ (es : List (Symbol × Info)) (ix : Linked),
      (es.foldl (fun ix e => ix.onCard e.1 (·.absorb (Card.ofInfo e.2))) ix).Holds f ↔
        ix.Holds f ∨ ∃ e ∈ es, f = .symbol e.1 ∨ ∃ r ∈ Record.ofInfo e.1 e.2.latest, r.Tells f := by
    intro es
    induction es with
    | nil => intro ix; simp
    | cons e es ih =>
      intro ix
      rw [List.foldl_cons, ih, holds_onCard_absorb, or_assoc, List.exists_mem_cons_iff]
      simp only [mem_ofInfo_toInfo_ofInfo]
  have htold : Told (more.mapValues fun _ i => i.latest) f ↔
      ∃ e ∈ more.entries, f = .symbol e.1 ∨ ∃ r ∈ Record.ofInfo e.1 e.2.latest, r.Tells f := by
    simp only [Told, OrderedMap.get?_mapValues, Option.map_eq_some_iff, OrderedMap.get?_eq_some_iff]
    constructor
    · rintro ⟨s, _, ⟨i, hi, rfl⟩, hf⟩
      exact ⟨(s, i), hi, hf⟩
    · rintro ⟨⟨s, i⟩, hi, hf⟩
      exact ⟨s, _, ⟨i, hi, rfl⟩, hf⟩
  rw [htold, ← hfold]
  exact holds_of_cards rfl f

/-! ## Calls and callers of a batch -/

/-- The info of a symbol has a record of a place that names a site. -/
def Names {α : Type} (records : Info → List α) (place : α → Location) (named : α → List Site)
    (more : OrderedMap Symbol Info) (x y : Site) : Prop :=
  ∃ i, more.get? x.symbol = some i ∧ ∃ a ∈ records i, place a = x.location ∧ y ∈ named a

/-- A definition of a batch makes a call. -/
abbrev TellsCall : OrderedMap Symbol Info → Site → Site → Prop :=
  Names Info.definitions Definition.location Definition.calls

/-- A reference of a batch knows that it stands in a definition. -/
abbrev TellsCaller : OrderedMap Symbol Info → Site → Site → Prop :=
  Names Info.references Reference.location Reference.callers

/-- What the records of one side name is told iff a record of the batch names it. -/
theorem told_iff_names {α : Type} {records : Info → List α} {place : α → Location}
    {named : α → List Site} {fact : Site → Site → Fact} (hfact : ∀ x y s, fact x y ≠ .symbol s)
    (htells : ∀ s i x y, (∃ r ∈ Record.ofInfo s i, r.Tells (fact x y)) ↔
      ∃ a ∈ records i, x = ⟨s, place a⟩ ∧ y ∈ named a)
    {more : OrderedMap Symbol Info} {x y : Site} :
    Told more (fact x y) ↔ Names records place named more x y := by
  simp only [Told, hfact, htells, false_or]
  constructor
  · rintro ⟨s, i, hi, a, ha, rfl, hy⟩
    exact ⟨i, hi, a, ha, rfl, hy⟩
  · rintro ⟨i, hi, a, ha, hx, hy⟩
    exact ⟨x.symbol, i, hi, a, ha, by rw [hx], hy⟩

theorem told_call {more : OrderedMap Symbol Info} {caller call : Site} :
    Told more (.call caller call) ↔ TellsCall more caller call :=
  told_iff_names (by simp) fun s i x y => by
    simp [Record.exists_mem_ofInfo, Record.Tells, and_comm]

theorem told_caller {more : OrderedMap Symbol Info} {call caller : Site} :
    Told more (.caller call caller) ↔ TellsCaller more call caller :=
  told_iff_names (by simp) fun s i x y => by
    simp [Record.exists_mem_ofInfo, Record.Tells, and_comm]

theorem calls_update (ix : Linked) (more : OrderedMap Symbol Info) (caller call : Site) :
    (ix.update more).Calls caller call ↔ ix.Calls caller call ∨
      TellsCall (more.mapValues fun _ i => i.latest) caller call :=
  (holds_update ix more (.call caller call)).trans (or_congr_right told_call)

theorem calledBy_update (ix : Linked) (more : OrderedMap Symbol Info) (call caller : Site) :
    (ix.update more).CalledBy call caller ↔ ix.CalledBy call caller ∨
      TellsCaller (more.mapValues fun _ i => i.latest) call caller :=
  (holds_update ix more (.caller call caller)).trans (or_congr_right told_caller)

section
variable {α : Type} {records : Info → List α} {place : α → Location} {named : α → List Site}
  {more : OrderedMap Symbol Info}

theorem names_latest_iff (h : ∀ i : Info, records i.latest = CallAtlas.latest place (records i))
    {x y : Site} : Names records place named (more.mapValues fun _ i => i.latest) x y ↔
      Names (fun i => CallAtlas.latest place (records i)) place named more x y := by
  simp only [Names, OrderedMap.get?_mapValues, Option.map_eq_some_iff]
  constructor
  · rintro ⟨_, ⟨i, hi, rfl⟩, ha⟩
    exact ⟨i, hi, h i ▸ ha⟩
  · rintro ⟨i, hi, ha⟩
    exact ⟨_, ⟨i, hi, rfl⟩, h i ▸ ha⟩

/-- If what the latest records name is added to what was known, all that a batch names is known
afterwards iff the rest was known before or is named by the latest records too. -/
theorem names_lossless_iff {before after : Site → Site → Prop}
    (hafter : ∀ x y, after x y ↔
      before x y ∨ Names (fun i => CallAtlas.latest place (records i)) place named more x y) :
    (∀ x y, after x y ↔ before x y ∨ Names records place named more x y) ↔
      ∀ s i, more.get? s = some i → ∀ a ∈ records i, ∀ y ∈ named a, before ⟨s, place a⟩ y ∨
        ∃ b ∈ CallAtlas.latest place (records i), place b = place a ∧ y ∈ named b := by
  constructor
  · intro h s i hi a ha y hy
    have hknown := (h ⟨s, place a⟩ y).2 (.inr ⟨i, hi, a, ha, rfl, hy⟩)
    rw [hafter] at hknown
    refine hknown.imp_right ?_
    rintro ⟨j, hj, hb⟩
    cases hi.symm.trans hj
    exact hb
  · intro h x y
    rw [hafter]
    constructor
    · refine Or.imp_right ?_
      rintro ⟨i, hi, b, hb, hbx⟩
      exact ⟨i, hi, b, latest_subset place _ hb, hbx⟩
    · rintro (hx | ⟨i, hi, a, ha, hax, hy⟩)
      · exact .inl hx
      · obtain ⟨s, l⟩ := x
        obtain rfl : place a = l := hax
        exact (h s i hi a ha y hy).imp_right fun hb => ⟨i, hi, hb⟩

end

/-- An index has become another by the calls and callers that a batch tells, and by no others. -/
structure Merged (ix : Linked) (more : OrderedMap Symbol Info) (ix' : Linked) : Prop where
  calls : ∀ caller call, ix'.Calls caller call ↔ ix.Calls caller call ∨ TellsCall more caller call
  callers : ∀ call caller,
    ix'.CalledBy call caller ↔ ix.CalledBy call caller ∨ TellsCaller more call caller

/-- A function with two definitions and two references at one place each. -/
def repeatedPlaces : OrderedMap Symbol Info :=
  .ofList [(.function "f",
    ⟨[⟨lineAt 1, none, [⟨.function "g", lineAt 2⟩], none, none⟩,
      ⟨lineAt 1, none, [⟨.function "h", lineAt 3⟩], none, none⟩],
     [⟨lineAt 5, [⟨.function "g", lineAt 4⟩]⟩, ⟨lineAt 5, [⟨.function "h", lineAt 6⟩]⟩]⟩)]

end Linked

end CallAtlas
