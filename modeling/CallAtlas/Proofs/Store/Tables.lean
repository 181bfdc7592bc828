import CallAtlas.Store.Database
import Mathlib.Data.List.Nodup

/-! # Tables by their contents

A row of a database names other rows by their ids. In `Tables` every row stands with the rows that
it names, so that equal rows are equal values; `Tables.store` puts ids in their places. Tables that
are `Sound` hold no row twice, so a query for a row finds one at most (`getOrAdd_eq`). Rows are
added at the end only, so an id that was given out stays the id of its row (`idxOf_grown`).

* `ofSnapshot_store`: writing by ids never fails and writes what the contents say.
* `toSnapshot?_store`: reading by ids reads what the contents say. -/

namespace CallAtlas

/-- The records of a symbol on a side, each as its place and its partners. -/
def Info.records (i : Info) : Store.Side → List (Location × List Site)
  | .definition => i.definitions.map fun d => (d.location, d.calls)
  | .reference => i.references.map fun r => (r.location, r.callers)

namespace Store

/-! ## Ids -/

section Ids

variable {α β : Type} [DecidableEq α] {rows more : List α} {row r : α}

theorem prefix_addIfAbsent (rows : List α) (row : α) : rows <+: addIfAbsent rows row := by
  unfold addIfAbsent
  split
  · exact List.prefix_rfl
  · exact List.prefix_append rows [row]

theorem mem_addIfAbsent_self (rows : List α) (row : α) : row ∈ addIfAbsent rows row :=
  mem_addIfAbsent.2 (.inr rfl)

/-- An id stays as a table grows. -/
theorem idxOf_grown (h : rows <+: more) (hr : r ∈ rows) : more.idxOf r = rows.idxOf r := by
  obtain ⟨rest, rfl⟩ := h
  exact List.idxOf_append_of_mem hr

theorem zipIdx_of_nodup (h : rows.Nodup) : rows.zipIdx = rows.map fun r => (r, rows.idxOf r) := by
  apply List.ext_getElem
  · simp
  · intro i hi _
    simp [h.idxOf_getElem i (by simpa using hi)]

theorem idsOf_of_mem (h : rows.Nodup) (hr : row ∈ rows) : idsOf rows row = [rows.idxOf row] := by
  have hone : rows.filter (fun r => decide (r = row)) = [row] := by
    rw [List.filter_eq, List.count_eq_one_of_mem h hr]
    rfl
  rw [idsOf, zipIdx_of_nodup h, List.filter_map, List.map_map]
  simp only [Function.comp_def]
  rw [hone]
  rfl

theorem idsOf_of_not_mem (hr : row ∉ rows) : idsOf rows row = [] := by
  rw [idsOf, List.map_eq_nil_iff, List.filter_eq_nil_iff]
  rintro ⟨r, i⟩ he
  have hmem := List.fst_mem_of_mem_zipIdx he
  simp only [decide_eq_true_eq]
  exact fun heq => hr (heq ▸ hmem)

/-- In a table without repetition a row is found once or added. -/
theorem getOrAdd_eq {clashes : α → α → Bool} (h : rows.Nodup)
    (hclash : row ∉ rows → ∀ r ∈ rows, clashes row r = false) :
    getOrAdd clashes rows row = .ok (addIfAbsent rows row, (addIfAbsent rows row).idxOf row) := by
  unfold getOrAdd addIfAbsent
  by_cases hr : row ∈ rows
  · rw [idsOf_of_mem h hr, if_pos hr]
  · have hany : rows.any (clashes row) = false := by
      rw [List.any_eq_false]
      exact fun r hm => by simp [hclash hr r hm]
    rw [idsOf_of_not_mem hr, if_neg hr, hany, List.idxOf_append_of_notMem hr]
    simp

/-- If rows tell values apart, they are added like the values. -/
theorem addIfAbsent_map [DecidableEq β] {f : α → β} (hf : ∀ r ∈ rows, f r = f row → r = row) :
    addIfAbsent (rows.map f) (f row) = (addIfAbsent rows row).map f := by
  unfold addIfAbsent
  by_cases hr : row ∈ rows
  · rw [if_pos (List.mem_map_of_mem hr), if_pos hr]
  · have hmap : f row ∉ rows.map f := by
      intro hm
      obtain ⟨r, hm, heq⟩ := List.mem_map.1 hm
      exact hr (hf r hm heq ▸ hm)
    rw [if_neg hmap, if_neg hr, List.map_append]
    rfl

theorem idxOf_map [DecidableEq β] {f : α → β} (hf : ∀ r ∈ rows, f r = f row → r = row) :
    (rows.map f).idxOf (f row) = rows.idxOf row := by
  induction rows with
  | nil => rfl
  | cons a rows ih =>
    have ih := ih fun r hr => hf r (.tail _ hr)
    by_cases ha : a = row
    · simp [ha]
    · have hfa : f a ≠ f row := fun heq => ha (hf a (.head _) heq)
      rw [List.map_cons, List.idxOf_cons_ne _ hfa, List.idxOf_cons_ne _ ha, ih]

end Ids

/-! ## Contents -/

/-- A definition or a reference with the rows that it names. -/
structure FullRow where
  symbol : SymbolRow
  location : LocationRow
  deriving DecidableEq

namespace FullRow

def ofSite (s : Site) : FullRow := ⟨.ofSymbol s.symbol, .ofLocation s.location⟩

def toSite (x : FullRow) : Site := ⟨x.symbol.toSymbol, x.location.toLocation⟩

end FullRow

/-- Tables in which every row stands with the rows that it names. -/
structure Tables where
  kinds : List Text
  symbols : List SymbolRow
  locations : List LocationRow
  definitions : List FullRow
  references : List FullRow
  links : List (Link FullRow)

namespace Tables

variable {v w : Tables} {side : Side} {x y : FullRow} {k : Link FullRow}

/-- The records on a side. -/
def sites (v : Tables) : Side → List FullRow
  | .definition => v.definitions
  | .reference => v.references

/-- A record by the ids of what it names. -/
def siteRow (v : Tables) (x : FullRow) : SiteRow :=
  ⟨v.symbols.idxOf x.symbol, v.locations.idxOf x.location⟩

/-- A link by the ids of its sides. -/
def linkRow (v : Tables) (k : Link FullRow) : Link Nat :=
  ⟨v.definitions.idxOf k.definition, v.references.idxOf k.reference⟩

/-- The tables by ids. -/
def store (v : Tables) : Database :=
  ⟨v.kinds, v.symbols, v.locations, v.definitions.map v.siteRow, v.references.map v.siteRow,
    v.links.map v.linkRow⟩

/-- No row stands in a table twice, every row that is named is there, and those of symbols are rows
of functions and methods. -/
structure Sound (v : Tables) : Prop where
  symbols : v.symbols.Nodup
  locations : v.locations.Nodup
  sites : ∀ side, (v.sites side).Nodup
  links : v.links.Nodup
  typed : ∀ r ∈ v.symbols, ∃ s, r = .ofSymbol s
  named : ∀ side, ∀ x ∈ v.sites side, x.symbol ∈ v.symbols ∧ x.location ∈ v.locations
  linked : ∀ k ∈ v.links, ∀ side, k.on side ∈ v.sites side

/-- Tables that have grown at their ends. -/
structure Grows (v w : Tables) : Prop where
  kinds : w.kinds = v.kinds
  symbols : v.symbols <+: w.symbols
  locations : v.locations <+: w.locations
  sites : ∀ side, v.sites side <+: w.sites side

theorem Grows.refl (v : Tables) : v.Grows v :=
  ⟨rfl, List.prefix_rfl, List.prefix_rfl, fun _ => List.prefix_rfl⟩

theorem Grows.trans {u : Tables} (h : v.Grows w) (h' : w.Grows u) : v.Grows u :=
  ⟨h'.kinds.trans h.kinds, h.symbols.trans h'.symbols, h.locations.trans h'.locations,
    fun side => (h.sites side).trans (h'.sites side)⟩

theorem sites_store (v : Tables) (side : Side) :
    v.store.sites side = (v.sites side).map v.siteRow := by
  cases side <;> rfl

theorem on_linkRow (v : Tables) (k : Link FullRow) (side : Side) :
    (v.linkRow k).on side = (v.sites side).idxOf (k.on side) := by
  cases side <;> rfl

theorem linkRow_of (v : Tables) (side : Side) (x y : FullRow) : v.linkRow (.of side x y) =
    .of side ((v.sites side).idxOf x) ((v.sites side.other).idxOf y) := by
  cases side <;> rfl

/-! ## Rows by ids -/

theorem Sound.siteRow_inj (h : v.Sound) (hx : x ∈ v.sites side)
    (heq : v.siteRow x = v.siteRow y) : x = y := by
  obtain ⟨hs, hl⟩ := h.named side x hx
  obtain ⟨xs, xl⟩ := x
  obtain ⟨ys, yl⟩ := y
  simp only [siteRow, SiteRow.mk.injEq, List.idxOf_inj hs, List.idxOf_inj hl] at heq
  rw [heq.1, heq.2]

theorem Sound.linkRow_inj (h : v.Sound) (hk : k ∈ v.links) {k' : Link FullRow}
    (heq : v.linkRow k = v.linkRow k') : k = k' := by
  have hd : k.definition ∈ v.definitions := h.linked k hk .definition
  have hr : k.reference ∈ v.references := h.linked k hk .reference
  obtain ⟨kd, kr⟩ := k
  obtain ⟨kd', kr'⟩ := k'
  simp only [linkRow, Link.mk.injEq, List.idxOf_inj hd, List.idxOf_inj hr] at heq
  rw [heq.1, heq.2]

theorem Sound.map_siteRow (h : v.Sound) (hg : v.Grows w) (side : Side) :
    (v.sites side).map w.siteRow = (v.sites side).map v.siteRow := by
  refine List.map_congr_left fun x hx => ?_
  obtain ⟨hs, hl⟩ := h.named side x hx
  rw [siteRow, siteRow, idxOf_grown hg.symbols hs, idxOf_grown hg.locations hl]

theorem Sound.map_linkRow (h : v.Sound) (hg : v.Grows w) :
    v.links.map w.linkRow = v.links.map v.linkRow := by
  refine List.map_congr_left fun k hk => ?_
  have hd := idxOf_grown (hg.sites .definition) (h.linked k hk .definition)
  have hr := idxOf_grown (hg.sites .reference) (h.linked k hk .reference)
  exact (Link.mk.injEq ..).mpr ⟨hd, hr⟩

/-! ## Changes -/

def addSymbol (v : Tables) (r : SymbolRow) : Tables :=
  { v with symbols := addIfAbsent v.symbols r }

def addLocation (v : Tables) (r : LocationRow) : Tables :=
  { v with locations := addIfAbsent v.locations r }

/-- Adds the row of a record whose place is there. -/
def putSite (v : Tables) (side : Side) (x : FullRow) : Tables :=
  match side with
  | .definition => { v with definitions := addIfAbsent v.definitions x }
  | .reference => { v with references := addIfAbsent v.references x }

/-- Adds the rows of a place and of a record there. -/
def addSite (v : Tables) (side : Side) (x : FullRow) : Tables :=
  (v.addLocation x.location).putSite side x

def addLink (v : Tables) (k : Link FullRow) : Tables :=
  { v with links := addIfAbsent v.links k }

theorem sites_putSite (v : Tables) (side other : Side) (x : FullRow) :
    (v.putSite side x).sites other =
      if other = side then addIfAbsent (v.sites other) x else v.sites other := by
  cases side <;> cases other <;> rfl

theorem grows_addSymbol (v : Tables) (r : SymbolRow) : v.Grows (v.addSymbol r) :=
  ⟨rfl, prefix_addIfAbsent _ _, List.prefix_rfl,
    fun side => by cases side <;> exact List.prefix_rfl⟩

theorem grows_addLocation (v : Tables) (r : LocationRow) : v.Grows (v.addLocation r) :=
  ⟨rfl, List.prefix_rfl, prefix_addIfAbsent _ _,
    fun side => by cases side <;> exact List.prefix_rfl⟩

theorem grows_putSite (v : Tables) (side : Side) (x : FullRow) : v.Grows (v.putSite side x) := by
  refine ⟨?_, ?_, ?_, fun other => ?_⟩
  · cases side <;> rfl
  · cases side <;> exact List.prefix_rfl
  · cases side <;> exact List.prefix_rfl
  · rw [sites_putSite]
    split
    · exact prefix_addIfAbsent _ _
    · exact List.prefix_rfl

theorem grows_addSite (v : Tables) (side : Side) (x : FullRow) : v.Grows (v.addSite side x) :=
  (v.grows_addLocation x.location).trans (grows_putSite _ side x)

theorem grows_addLink (v : Tables) (k : Link FullRow) : v.Grows (v.addLink k) :=
  ⟨rfl, List.prefix_rfl, List.prefix_rfl, fun side => by cases side <;> exact List.prefix_rfl⟩

namespace Sound

theorem addSymbol (h : v.Sound) (s : Symbol) : (v.addSymbol (.ofSymbol s)).Sound where
  symbols := nodup_addIfAbsent h.symbols _
  locations := h.locations
  sites := h.sites
  links := h.links
  typed r hr := (mem_addIfAbsent.1 hr).elim (h.typed r) fun heq => ⟨s, heq⟩
  named side x hx :=
    ⟨mem_addIfAbsent.2 (.inl (h.named side x hx).1), (h.named side x hx).2⟩
  linked := h.linked

theorem addLocation (h : v.Sound) (r : LocationRow) : (v.addLocation r).Sound where
  symbols := h.symbols
  locations := nodup_addIfAbsent h.locations _
  sites := h.sites
  links := h.links
  typed := h.typed
  named side x hx :=
    ⟨(h.named side x hx).1, mem_addIfAbsent.2 (.inl (h.named side x hx).2)⟩
  linked := h.linked

theorem putSite (h : v.Sound) (hs : x.symbol ∈ v.symbols) (hl : x.location ∈ v.locations)
    (side : Side) : (v.putSite side x).Sound := by
  have hsymbols : (v.putSite side x).symbols = v.symbols := by cases side <;> rfl
  have hlocations : (v.putSite side x).locations = v.locations := by cases side <;> rfl
  have hlinks : (v.putSite side x).links = v.links := by cases side <;> rfl
  refine ⟨hsymbols ▸ h.symbols, hlocations ▸ h.locations, fun other => ?_, hlinks ▸ h.links,
    hsymbols ▸ h.typed, fun other y hy => ?_, fun k hk other => ?_⟩
  · rw [sites_putSite]
    split
    · exact nodup_addIfAbsent (h.sites other) x
    · exact h.sites other
  · rw [hsymbols, hlocations]
    rw [sites_putSite] at hy
    split at hy
    · obtain hy | rfl := mem_addIfAbsent.1 hy
      · exact h.named other y hy
      · exact ⟨hs, hl⟩
    · exact h.named other y hy
  · rw [hlinks] at hk
    exact ((grows_putSite v side x).sites other).subset (h.linked k hk other)

theorem addSite (h : v.Sound) (hs : x.symbol ∈ v.symbols) (side : Side) :
    (v.addSite side x).Sound :=
  (h.addLocation x.location).putSite hs (mem_addIfAbsent_self _ _) side

theorem addLink (h : v.Sound) (hk : ∀ side, k.on side ∈ v.sites side) : (v.addLink k).Sound where
  symbols := h.symbols
  locations := h.locations
  sites := h.sites
  links := nodup_addIfAbsent h.links k
  typed := h.typed
  named := h.named
  linked k' hk' := (mem_addIfAbsent.1 hk').elim (h.linked k') fun heq => heq ▸ hk

end Sound

theorem mem_addSite_self (v : Tables) (side : Side) (x : FullRow) :
    x ∈ (v.addSite side x).sites side := by
  rw [addSite, sites_putSite, if_pos rfl]
  exact mem_addIfAbsent_self _ _

/-! ## Changes by ids -/

theorem store_addSymbol (h : v.Sound) (r : SymbolRow) : (v.addSymbol r).store =
    { v.store with symbols := addIfAbsent v.symbols r } := by
  have hg := v.grows_addSymbol r
  exact (Database.mk.injEq ..).mpr ⟨rfl, rfl, rfl, h.map_siteRow hg .definition,
    h.map_siteRow hg .reference, h.map_linkRow hg⟩

theorem store_addLocation (h : v.Sound) (r : LocationRow) : (v.addLocation r).store =
    { v.store with locations := addIfAbsent v.locations r } := by
  have hg := v.grows_addLocation r
  exact (Database.mk.injEq ..).mpr ⟨rfl, rfl, rfl, h.map_siteRow hg .definition,
    h.map_siteRow hg .reference, h.map_linkRow hg⟩

theorem store_putSite (h : v.Sound) (side : Side) (x : FullRow) : (v.putSite side x).store =
    v.store.putSites side ((addIfAbsent (v.sites side) x).map v.siteRow) := by
  have hl := h.map_linkRow (v.grows_putSite side x)
  cases side with
  | definition => exact (Database.mk.injEq ..).mpr ⟨rfl, rfl, rfl, rfl, rfl, hl⟩
  | reference => exact (Database.mk.injEq ..).mpr ⟨rfl, rfl, rfl, rfl, rfl, hl⟩

/-- A change by ids takes tables to tables and tells a value. -/
def Runs {α : Type} (v : Tables) (m : Database.Writing α) (a : α) (w : Tables) : Prop :=
  m.run v.store = .ok (a, w.store)

theorem Runs.bind {α β : Type} {u : Tables} {m : Database.Writing α} {a : α}
    {f : α → Database.Writing β} {b : β} (h : v.Runs m a w) (h' : w.Runs (f a) b u) :
    v.Runs (m >>= f) b u := by
  rw [Runs, StateT.run_bind, show m.run v.store = _ from h]
  exact h'

theorem run_idOf {α : Type} [DecidableEq α] {t : Table α} {db : Database} {row : α}
    {rows : List α} {id : Nat} (h : getOrAdd t.clashes (t.rows db) row = .ok (rows, id)) :
    (Database.idOf t row).run db = .ok (id, t.put rows db) := by
  simp [Database.idOf, h]

/-- Symbols of one name and one known class are methods, and equal. -/
theorem eq_of_clashes {s t : Symbol}
    (h : SymbolRow.clashes (.ofSymbol s) (.ofSymbol t) = true) : s = t := by
  simp only [SymbolRow.clashes, Bool.and_eq_true, decide_eq_true_eq] at h
  obtain ⟨⟨hname, hclass⟩, hsome⟩ := h
  cases s with
  | function n => cases hsome
  | method n c =>
    cases t with
    | function m => rw [hclass] at hsome; cases hsome
    | method m d =>
      simp only [SymbolRow.ofSymbol] at hname hclass
      rw [hname, hclass]

theorem runs_symbolId (h : v.Sound) (s : Symbol) : v.Runs (Database.symbolId s)
    ((v.addSymbol (.ofSymbol s)).symbols.idxOf (.ofSymbol s)) (v.addSymbol (.ofSymbol s)) := by
  have hclash : SymbolRow.ofSymbol s ∉ v.symbols → ∀ r ∈ v.symbols,
      SymbolRow.clashes (.ofSymbol s) r = false := by
    intro hs r hr
    obtain ⟨t, rfl⟩ := h.typed r hr
    rw [Bool.eq_false_iff]
    exact fun hclashes => hs (eq_of_clashes hclashes ▸ hr)
  rw [Runs, store_addSymbol h]
  exact run_idOf (getOrAdd_eq h.symbols hclash)

theorem runs_putSite (h : v.Sound) (side : Side) (x : FullRow) :
    v.Runs (Database.idOf (Database.siteTable side) (v.siteRow x))
      (((v.putSite side x).sites side).idxOf x) (v.putSite side x) := by
  -- Two ids tell a record, so the table of ids has a row for a record iff that of records has.
  have hinj : ∀ y ∈ v.sites side, v.siteRow y = v.siteRow x → y = x :=
    fun y hy => h.siteRow_inj hy
  have hinj' : ∀ y ∈ addIfAbsent (v.sites side) x, v.siteRow y = v.siteRow x → y = x :=
    fun y hy heq => (mem_addIfAbsent.1 hy).elim (fun hy => hinj y hy heq) id
  have hnodup : ((v.sites side).map v.siteRow).Nodup :=
    (h.sites side).map_on fun y hy z _ => h.siteRow_inj hy
  have hget : getOrAdd (fun _ _ => false) ((v.sites side).map v.siteRow) (v.siteRow x) =
      .ok ((addIfAbsent (v.sites side) x).map v.siteRow,
        (addIfAbsent (v.sites side) x).idxOf x) := by
    rw [getOrAdd_eq hnodup fun _ _ _ => rfl, addIfAbsent_map hinj, idxOf_map hinj']
  rw [Runs, store_putSite h, sites_putSite, if_pos rfl]
  refine run_idOf (t := Database.siteTable side) ?_
  rw [← hget, ← sites_store]
  rfl

theorem runs_siteId (h : v.Sound) (side : Side) (r : SymbolRow) (l : Location) :
    v.Runs (Database.siteId side (v.symbols.idxOf r) l)
      (((v.addSite side ⟨r, .ofLocation l⟩).sites side).idxOf ⟨r, .ofLocation l⟩)
      (v.addSite side ⟨r, .ofLocation l⟩) := by
  have hplace : v.Runs (Database.idOf Database.locationTable (.ofLocation l))
      ((v.addLocation (.ofLocation l)).locations.idxOf (.ofLocation l))
      (v.addLocation (.ofLocation l)) := by
    rw [Runs, store_addLocation h]
    exact run_idOf (getOrAdd_eq h.locations fun _ _ _ => rfl)
  exact hplace.bind (runs_putSite (h.addLocation _) side ⟨r, .ofLocation l⟩)

theorem runs_link (h : v.Sound) (side : Side) (x y : FullRow) :
    v.Runs (Database.link side ((v.sites side).idxOf x) ((v.sites side.other).idxOf y)) ()
      (v.addLink (.of side x y)) := by
  have hinj : ∀ k ∈ v.links, v.linkRow k = v.linkRow (.of side x y) → k = .of side x y :=
    fun k hk => h.linkRow_inj hk
  have hlinks := addIfAbsent_map hinj
  rw [linkRow_of] at hlinks
  have hstore : (v.addLink (.of side x y)).store =
      { v.store with links := (addIfAbsent v.links (.of side x y)).map v.linkRow } := rfl
  rw [Runs, hstore, ← hlinks]
  rfl

/-! ## Writing -/

/-- Adds what stands on the other side of a record. -/
def addPartner (side : Side) (x : FullRow) (v : Tables) (partner : Site) : Tables :=
  ((v.addSymbol (.ofSymbol partner.symbol)).addSite side.other (.ofSite partner)).addLink
    (.of side x (.ofSite partner))

/-- Adds a record with its partners. -/
def addRecord (v : Tables) (side : Side) (x : FullRow) (partners : List Site) : Tables :=
  partners.foldl (addPartner side x) (v.addSite side x)

/-- Adds records of a symbol on a side. -/
def addRecords (v : Tables) (side : Side) (s : Symbol) (records : List (Location × List Site)) :
    Tables :=
  records.foldl (fun v r => v.addRecord side (.ofSite ⟨s, r.1⟩) r.2) v

/-- Adds a symbol with its definitions and then its references. -/
def addEntry (v : Tables) (e : Symbol × Info) : Tables :=
  ((v.addSymbol (.ofSymbol e.1)).addRecords .definition e.1 (e.2.records .definition)).addRecords
    .reference e.1 (e.2.records .reference)

/-- The tables of a snapshot. -/
def ofSnapshot (s : Snapshot) : Tables := s.entries.foldl addEntry ⟨[s.kind], [], [], [], [], []⟩

/-- The record that a partner is linked with is there when the partner has its rows. -/
theorem grows_partnerRows (v : Tables) (side : Side) (partner : Site) :
    v.Grows ((v.addSymbol (.ofSymbol partner.symbol)).addSite side (.ofSite partner)) :=
  (v.grows_addSymbol _).trans (grows_addSite _ _ _)

theorem grows_addPartner (side : Side) (x : FullRow) (v : Tables) (partner : Site) :
    v.Grows (addPartner side x v partner) :=
  (v.grows_partnerRows side.other partner).trans (grows_addLink _ _)

theorem grows_addRecord (v : Tables) (side : Side) (x : FullRow) (partners : List Site) :
    v.Grows (v.addRecord side x partners) :=
  List.foldlRecOn partners _ (v.grows_addSite side x) fun _ h p _ =>
    h.trans (grows_addPartner side x _ p)

theorem Sound.addPartner (h : v.Sound) (hx : x ∈ v.sites side) (partner : Site) :
    (Tables.addPartner side x v partner).Sound := by
  refine ((h.addSymbol _).addSite (mem_addIfAbsent_self _ _) _).addLink fun s => ?_
  have hx := ((v.grows_partnerRows side.other partner).sites side).subset hx
  have hp := mem_addSite_self (v.addSymbol (.ofSymbol partner.symbol)) side.other (.ofSite partner)
  cases side <;> cases s <;> assumption

theorem runs_addPartner (h : v.Sound) (hx : x ∈ v.sites side) (partner : Site) :
    v.Runs (Database.addPartner side ((v.sites side).idxOf x) partner) ()
      (addPartner side x v partner) := by
  have hs := h.addSymbol partner.symbol
  refine (runs_symbolId h partner.symbol).bind ?_
  refine (runs_siteId hs side.other _ partner.location).bind ?_
  rw [← idxOf_grown ((v.grows_partnerRows side.other partner).sites side) hx]
  exact runs_link (hs.addSite (mem_addIfAbsent_self _ _) side.other) side x (.ofSite partner)

/-- Changes one after the other, under an invariant. -/
theorem runs_forM {β : Type} {f : β → Database.Writing Unit} {g : Tables → β → Tables}
    {I : Tables → Prop} (hstep : ∀ v b, I v → v.Runs (f b) () (g v b) ∧ I (g v b))
    (items : List β) (h : I v) :
    v.Runs (items.forM f) () (items.foldl g v) ∧ I (items.foldl g v) := by
  induction items generalizing v with
  | nil => exact ⟨rfl, h⟩
  | cons b items ih =>
    obtain ⟨hrun, hnext⟩ := hstep v b h
    obtain ⟨hrest, hlast⟩ := ih hnext
    exact ⟨hrun.bind hrest, hlast⟩

theorem runs_addRecord (h : v.Sound) (side : Side) {s : Site}
    (hs : .ofSymbol s.symbol ∈ v.symbols) (partners : List Site) :
    v.Runs (Database.addRecord side (v.symbols.idxOf (.ofSymbol s.symbol)) s.location partners) ()
        (v.addRecord side (.ofSite s) partners) ∧
      (v.addRecord side (.ofSite s) partners).Sound := by
  have hsite := runs_siteId h side (.ofSymbol s.symbol) s.location
  -- The record keeps its id while its partners are added.
  generalize hid : ((v.addSite side ⟨.ofSymbol s.symbol, .ofLocation s.location⟩).sites side).idxOf
    ⟨.ofSymbol s.symbol, .ofLocation s.location⟩ = id at hsite
  have hstep : ∀ (w : Tables) (p : Site),
      (w.Sound ∧ .ofSite s ∈ w.sites side ∧ (w.sites side).idxOf (.ofSite s) = id) →
      w.Runs (Database.addPartner side id p) () (addPartner side (.ofSite s) w p) ∧
        (addPartner side (.ofSite s) w p).Sound ∧
        .ofSite s ∈ (addPartner side (.ofSite s) w p).sites side ∧
        ((addPartner side (.ofSite s) w p).sites side).idxOf (.ofSite s) = id := by
    rintro w p ⟨hw, hmem, rfl⟩
    have hg := (grows_addPartner side (.ofSite s) w p).sites side
    exact ⟨runs_addPartner hw hmem p, hw.addPartner hmem p, hg.subset hmem,
      idxOf_grown hg hmem⟩
  obtain ⟨hruns, hsound, -⟩ := runs_forM hstep partners
    ⟨h.addSite hs side, mem_addSite_self v side (.ofSite s), hid⟩
  exact ⟨hsite.bind hruns, hsound⟩

theorem runs_addRecords {β : Type} (h : v.Sound) (side : Side) {s : Symbol}
    (hs : .ofSymbol s ∈ v.symbols) (place : β → Location) (partners : β → List Site)
    (records : List β) :
    v.Runs (records.forM fun r =>
        Database.addRecord side (v.symbols.idxOf (.ofSymbol s)) (place r) (partners r)) ()
      (v.addRecords side s (records.map fun r => (place r, partners r))) ∧
    (v.addRecords side s (records.map fun r => (place r, partners r))).Sound ∧
    v.Grows (v.addRecords side s (records.map fun r => (place r, partners r))) := by
  rw [addRecords, List.foldl_map]
  refine runs_forM (I := fun w => w.Sound ∧ v.Grows w) ?_ records ⟨h, .refl v⟩
  rintro w r ⟨hw, hg⟩
  rw [← idxOf_grown hg.symbols hs]
  obtain ⟨hruns, hsound⟩ := runs_addRecord hw side (s := ⟨s, place r⟩) (hg.symbols.subset hs)
    (partners r)
  exact ⟨hruns, hsound, hg.trans (grows_addRecord _ _ _ _)⟩

theorem runs_addEntry (h : v.Sound) (e : Symbol × Info) :
    v.Runs (Database.addEntry e) () (v.addEntry e) ∧ (v.addEntry e).Sound ∧
      v.Grows (v.addEntry e) := by
  have hs := h.addSymbol e.1
  have hmem : SymbolRow.ofSymbol e.1 ∈ (v.addSymbol (.ofSymbol e.1)).symbols :=
    mem_addIfAbsent_self _ _
  obtain ⟨hdefinitions, hd, hg⟩ := runs_addRecords hs .definition hmem Definition.location
    Definition.calls e.2.definitions
  obtain ⟨hreferences, hr, hg'⟩ := runs_addRecords hd .reference (hg.symbols.subset hmem)
    Reference.location Reference.callers e.2.references
  rw [idxOf_grown hg.symbols hmem] at hreferences
  refine ⟨(runs_symbolId h e.1).bind ?_, hr, ((v.grows_addSymbol _).trans hg).trans hg'⟩
  refine Runs.bind hdefinitions ?_
  exact hreferences

theorem sound_empty (kinds : List Text) : Sound ⟨kinds, [], [], [], [], []⟩ where
  symbols := .nil
  locations := .nil
  sites side := by cases side <;> exact .nil
  links := .nil
  typed r hr := by cases hr
  named side x hx := by cases side <;> cases hx
  linked k hk := by cases hk

/-- Writing by ids does not fail, and writes what the contents say. -/
theorem ofSnapshot_store (s : Snapshot) : Database.ofSnapshot s = .ok (ofSnapshot s).store ∧
    (ofSnapshot s).Sound ∧ (ofSnapshot s).kinds = [s.kind] := by
  have hstep : ∀ (v : Tables) (e : Symbol × Info), (v.Sound ∧ v.kinds = [s.kind]) →
      v.Runs (Database.addEntry e) () (v.addEntry e) ∧
        (v.addEntry e).Sound ∧ (v.addEntry e).kinds = [s.kind] := by
    rintro v e ⟨hv, hkinds⟩
    obtain ⟨hruns, hsound, hg⟩ := runs_addEntry hv e
    exact ⟨hruns, hsound, hg.kinds.trans hkinds⟩
  obtain ⟨hruns, hlast⟩ := runs_forM hstep s.entries ⟨sound_empty [s.kind], rfl⟩
  refine ⟨?_, hlast⟩
  have hdef : Database.ofSnapshot s = Except.map Prod.snd
      ((s.entries.forM Database.addEntry).run (store ⟨[s.kind], [], [], [], [], []⟩)) := rfl
  rw [hdef, hruns]
  rfl

theorem sound_ofSnapshot (s : Snapshot) : (ofSnapshot s).Sound := (ofSnapshot_store s).2.1

/-! ## Reading -/

/-- The rows that are linked with a record. -/
def partnerRows (v : Tables) (side : Side) (x : FullRow) : List FullRow :=
  (v.links.filter fun k => decide (k.on side = x)).map fun k => k.on side.other

/-- What stands on the other side of a record. -/
def partners (v : Tables) (side : Side) (x : FullRow) : List Site :=
  (v.partnerRows side x).map FullRow.toSite

/-- The records of a symbol on a side. -/
def records (v : Tables) (side : Side) (r : SymbolRow) : List (Location × List Site) :=
  ((v.sites side).filter fun x => decide (x.symbol = r)).map fun x =>
    (x.location.toLocation, v.partners side x)

/-- What the tables tell about a symbol. -/
def info (v : Tables) (r : SymbolRow) : Info :=
  ⟨(v.records .definition r).map fun e => ⟨e.1, none, e.2, none, none⟩,
    (v.records .reference r).map fun e => ⟨e.1, e.2⟩⟩

theorem mem_partnerRows : y ∈ v.partnerRows side x ↔ .of side x y ∈ v.links := by
  simp only [partnerRows, List.mem_map, List.mem_filter, decide_eq_true_eq]
  constructor
  · rintro ⟨⟨d, r⟩, ⟨hk, rfl⟩, rfl⟩
    cases side <;> exact hk
  · exact fun hk => ⟨_, ⟨hk, by cases side <;> rfl⟩, by cases side <;> rfl⟩

theorem Sound.nodup_partnerRows (h : v.Sound) (side : Side) (x : FullRow) :
    (v.partnerRows side x).Nodup := by
  refine List.Nodup.map_on (fun k hk k' hk' heq => ?_) (h.links.filter _)
  have hk := of_decide_eq_true (List.mem_filter.1 hk).2
  have hk' := of_decide_eq_true (List.mem_filter.1 hk').2
  obtain ⟨d, r⟩ := k
  obtain ⟨d', r'⟩ := k'
  have hsame := hk.trans hk'.symm
  cases side <;> simp_all [Link.on, Side.other]

theorem mapM_eq_some {α β : Type} {f : α → Option β} {g : α → β} {items : List α}
    (h : ∀ a ∈ items, f a = some (g a)) : items.mapM f = some (items.map g) := by
  induction items with
  | nil => rfl
  | cons a items ih =>
    rw [List.mapM_cons, h a (.head _), ih fun b hb => h b (.tail _ hb)]
    rfl

theorem site?_siteRow (h : v.Sound) (hx : x ∈ v.sites side) :
    v.store.site? (v.siteRow x) = some x.toSite := by
  obtain ⟨hs, hl⟩ := h.named side x hx
  have hsymbol : v.store.symbols[(v.siteRow x).symbol]? = some x.symbol := List.getElem?_idxOf hs
  have hlocation : v.store.locations[(v.siteRow x).location]? = some x.location :=
    List.getElem?_idxOf hl
  rw [Database.site?, hsymbol, hlocation]
  rfl

theorem partners?_store (h : v.Sound) (side : Side) (x : FullRow) :
    v.store.partners? side ((v.sites side).idxOf x) = some (v.partners side x) := by
  have hfilter : v.store.links.filter (fun k => decide (k.on side = (v.sites side).idxOf x)) =
      (v.links.filter fun k => decide (k.on side = x)).map v.linkRow := by
    rw [store, List.filter_map]
    refine congrArg _ (List.filter_congr fun k hk => ?_)
    simp only [Function.comp_apply, on_linkRow, List.idxOf_inj (h.linked k hk side)]
  rw [Database.partners?, hfilter, List.mapM_map, partners, partnerRows, List.map_map]
  refine mapM_eq_some fun k hk => ?_
  have hk := h.linked k (List.mem_filter.1 hk).1 side.other
  have hrow : (v.store.sites side.other)[(v.linkRow k).on side.other]? =
      some (v.siteRow (k.on side.other)) := by
    rw [sites_store, on_linkRow, List.getElem?_map, List.getElem?_idxOf hk]
    rfl
  simp only [Function.comp_apply, hrow]
  exact site?_siteRow h hk

theorem records?_store (h : v.Sound) (side : Side) (r : SymbolRow) :
    v.store.records? side (v.symbols.idxOf r) = some (v.records side r) := by
  have hrows : (v.store.sites side).zipIdx =
      (v.sites side).map fun x => (v.siteRow x, (v.sites side).idxOf x) := by
    rw [sites_store, List.zipIdx_map, zipIdx_of_nodup (h.sites side), List.map_map]
    rfl
  have hfilter : (v.store.sites side).zipIdx.filter
        (fun e => decide (e.1.symbol = v.symbols.idxOf r)) =
      ((v.sites side).filter fun x => decide (x.symbol = r)).map
        fun x => (v.siteRow x, (v.sites side).idxOf x) := by
    rw [hrows, List.filter_map]
    refine congrArg _ (List.filter_congr fun x hx => ?_)
    simp only [Function.comp_apply, siteRow, List.idxOf_inj (h.named side x hx).1]
  rw [Database.records?, hfilter, List.mapM_map]
  refine mapM_eq_some fun x hx => ?_
  have hx := (List.mem_filter.1 hx).1
  simp only [Function.comp_apply, site?_siteRow h hx, partners?_store h]
  rfl

theorem info?_store (h : v.Sound) (r : SymbolRow) :
    v.store.info? (v.symbols.idxOf r) = some (v.info r) := by
  rw [Database.info?, records?_store h, records?_store h]
  rfl

/-- Reading by ids reads what the contents say. -/
theorem toSnapshot?_store (h : v.Sound) {kind : Text} (hkind : v.kinds = [kind]) :
    v.store.toSnapshot? =
      some ⟨kind, v.symbols.map fun r => (r.toSymbol, v.info r), none⟩ := by
  have hk : v.store.kind? = some kind := by rw [Database.kind?, store, hkind]
  have hentries : v.store.symbols.zipIdx.mapM (fun e => do
        let info ← v.store.info? e.2
        return (e.1.toSymbol, info)) =
      some (v.symbols.map fun r => (r.toSymbol, v.info r)) := by
    rw [show v.store.symbols = v.symbols from rfl, zipIdx_of_nodup h.symbols, List.mapM_map]
    refine mapM_eq_some fun r _ => ?_
    simp only [Function.comp_apply, info?_store h]
    rfl
  rw [Database.toSnapshot?, hk, hentries]
  rfl

end Tables

end Store

end CallAtlas
