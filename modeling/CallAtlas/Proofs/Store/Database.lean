import CallAtlas.Proofs.Files
import CallAtlas.Proofs.Reordering
import CallAtlas.Proofs.Store.Document
import CallAtlas.Proofs.Store.Tables
import CallAtlas.Store.Basic

/-! # Snapshots read back from their databases

The tables of a snapshot hold a row for every record and for every partner of one
(`mem_symbols_ofSnapshot`, `mem_sites_ofSnapshot`, `mem_links_ofSnapshot`). In a `Regular` snapshot
partners are records themselves, so each table is a rearrangement of what the snapshot lists, and
reading rebuilds it up to the order of its lists (`info_same`). -/

namespace CallAtlas

open Store

/-! ## Regular snapshots -/

namespace Snapshot

/-- A definition makes a call. -/
def Calls (s : Snapshot) (caller call : Site) : Prop :=
  ∃ e ∈ s.entries, e.1 = caller.symbol ∧
    ∃ d ∈ e.2.definitions, d.location = caller.location ∧ call ∈ d.calls

/-- A reference knows that it stands in a definition. -/
def CalledBy (s : Snapshot) (call caller : Site) : Prop :=
  ∃ e ∈ s.entries, e.1 = call.symbol ∧
    ∃ r ∈ e.2.references, r.location = call.location ∧ caller ∈ r.callers

/-- No symbol, no place of a symbol and no call is listed twice, and every call is recorded at both
ends. -/
structure Regular (s : Snapshot) : Prop where
  symbols : (s.entries.map Prod.fst).Nodup
  definitions : ∀ e ∈ s.entries, (e.2.definitions.map Definition.location).Nodup
  references : ∀ e ∈ s.entries, (e.2.references.map Reference.location).Nodup
  calls : ∀ e ∈ s.entries, ∀ d ∈ e.2.definitions, d.calls.Nodup
  callers : ∀ e ∈ s.entries, ∀ r ∈ e.2.references, r.callers.Nodup
  balanced : ∀ caller call, s.Calls caller call ↔ s.CalledBy call caller

/-- A symbol has a record on a side at a place. -/
def HasRecord (s : Snapshot) (side : Side) (x : Site) : Prop :=
  ∃ e ∈ s.entries, e.1 = x.symbol ∧ ∃ r ∈ e.2.records side, r.1 = x.location

/-- A record on a side has a partner on the other. -/
def Partners (s : Snapshot) (side : Side) (x y : Site) : Prop :=
  ∃ e ∈ s.entries, e.1 = x.symbol ∧ ∃ r ∈ e.2.records side, r.1 = x.location ∧ y ∈ r.2

variable {s : Snapshot} {side : Side} {x y : Site}

theorem Partners.hasRecord (h : s.Partners side x y) : s.HasRecord side x := by
  obtain ⟨e, he, hs, r, hr, hl, -⟩ := h
  exact ⟨e, he, hs, r, hr, hl⟩

theorem partners_definition : s.Partners .definition x y ↔ s.Calls x y := by
  simp [Partners, Calls, Info.records]

theorem partners_reference : s.Partners .reference x y ↔ s.CalledBy x y := by
  simp [Partners, CalledBy, Info.records]

namespace Regular

/-- Whatever is a partner has its own record with a partner. -/
theorem partners_iff (h : s.Regular) : s.Partners side x y ↔ s.Partners side.other y x := by
  cases side with
  | definition => exact partners_definition.trans ((h.balanced x y).trans partners_reference.symm)
  | reference =>
    exact partners_reference.trans ((h.balanced y x).symm.trans partners_definition.symm)

theorem nodup_places (h : s.Regular) {e : Symbol × Info} (he : e ∈ s.entries) (side : Side) :
    ((e.2.records side).map Prod.fst).Nodup := by
  cases side with
  | definition => simpa [Info.records, Function.comp_def] using h.definitions e he
  | reference => simpa [Info.records, Function.comp_def] using h.references e he

theorem nodup_partners (h : s.Regular) {e : Symbol × Info} (he : e ∈ s.entries)
    {r : Location × List Site} (hr : r ∈ e.2.records side) : r.2.Nodup := by
  cases side with
  | definition =>
    obtain ⟨d, hd, rfl⟩ := List.mem_map.1 hr
    exact h.calls e he d hd
  | reference =>
    obtain ⟨d, hd, rfl⟩ := List.mem_map.1 hr
    exact h.callers e he d hd

end Regular

end Snapshot

/-! ## Contents of the tables -/

namespace Store

theorem Side.exists_iff {P : Side → Prop} : (∃ side, P side) ↔ P .definition ∨ P .reference :=
  ⟨fun ⟨side, h⟩ => by cases side; exacts [.inl h, .inr h],
    fun h => h.elim (fun h => ⟨_, h⟩) fun h => ⟨_, h⟩⟩

/-- What a table can hold. -/
inductive Content where
  | symbol (r : SymbolRow)
  | site (side : Side) (x : FullRow)
  | link (k : Link FullRow)

namespace Tables

/-- What tables hold. -/
def Has (v : Tables) : Content → Prop
  | .symbol r => r ∈ v.symbols
  | .site side x => x ∈ v.sites side
  | .link k => k ∈ v.links

variable {v : Tables} {side : Side} {x : FullRow} {c : Content}

theorem has_addSymbol {r : SymbolRow} : (v.addSymbol r).Has c ↔ v.Has c ∨ c = .symbol r := by
  cases c with
  | symbol r' => simp [Has, addSymbol, mem_addIfAbsent]
  | site other x => simp only [reduceCtorEq, or_false]; rfl
  | link k => simp only [reduceCtorEq, or_false]; rfl

theorem has_addSite : (v.addSite side x).Has c ↔ v.Has c ∨ c = .site side x := by
  cases c with
  | symbol r => simp only [reduceCtorEq, or_false]; cases side <;> rfl
  | site other y =>
    simp only [Has, addSite, sites_putSite, Content.site.injEq]
    split
    · next h => simp only [mem_addIfAbsent, h, true_and]; cases side <;> rfl
    · next h => simp only [h, false_and, or_false]; cases other <;> rfl
  | link k => simp only [reduceCtorEq, or_false]; cases side <;> rfl

theorem has_addLink {k : Link FullRow} : (v.addLink k).Has c ↔ v.Has c ∨ c = .link k := by
  cases c with
  | symbol r => simp only [reduceCtorEq, or_false]; rfl
  | site other x => simp only [reduceCtorEq, or_false]; cases other <;> rfl
  | link k' => simp [Has, addLink, mem_addIfAbsent]

/-- What tables come to hold in a fold: what they held, and what its steps add. -/
theorem has_foldl {β : Type} {f : Tables → β → Tables} {P : β → Prop}
    (h : ∀ v b, (f v b).Has c ↔ v.Has c ∨ P b) (items : List β) (v : Tables) :
    (items.foldl f v).Has c ↔ v.Has c ∨ ∃ b ∈ items, P b := by
  induction items generalizing v with
  | nil => simp
  | cons b items ih => rw [List.foldl_cons, ih, h, or_assoc, List.exists_mem_cons_iff]

/-- What a partner of a record adds to the tables. -/
def Adds (side : Side) (x : FullRow) (c : Content) (p : Site) : Prop :=
  c = .symbol (.ofSymbol p.symbol) ∨ c = .site side.other (.ofSite p) ∨
    c = .link (.of side x (.ofSite p))

theorem has_addPartner (v : Tables) (p : Site) :
    (addPartner side x v p).Has c ↔ v.Has c ∨ Adds side x c p := by
  rw [addPartner, has_addLink, has_addSite, has_addSymbol, or_assoc, or_assoc]
  rfl

theorem has_addRecord {partners : List Site} : (v.addRecord side x partners).Has c ↔
    v.Has c ∨ c = .site side x ∨ ∃ p ∈ partners, Adds side x c p := by
  rw [addRecord, has_foldl has_addPartner, has_addSite, or_assoc]

/-- What a record of a symbol adds to the tables. -/
def RecordAdds (side : Side) (s : Symbol) (c : Content) (r : Location × List Site) : Prop :=
  c = .site side (.ofSite ⟨s, r.1⟩) ∨ ∃ p ∈ r.2, Adds side (.ofSite ⟨s, r.1⟩) c p

theorem has_addRecords {s : Symbol} {records : List (Location × List Site)} :
    (v.addRecords side s records).Has c ↔ v.Has c ∨ ∃ r ∈ records, RecordAdds side s c r :=
  has_foldl (P := RecordAdds side s c) (fun _ _ => has_addRecord) records v

theorem has_addEntry (v : Tables) (e : Symbol × Info) : (v.addEntry e).Has c ↔
    v.Has c ∨ c = .symbol (.ofSymbol e.1) ∨
      ∃ side, ∃ r ∈ e.2.records side, RecordAdds side e.1 c r := by
  rw [addEntry, has_addRecords, has_addRecords, has_addSymbol, Side.exists_iff, or_assoc, or_assoc]

theorem has_ofSnapshot {s : Snapshot} : (ofSnapshot s).Has c ↔
    ∃ e ∈ s.entries, c = .symbol (.ofSymbol e.1) ∨
      ∃ side, ∃ r ∈ e.2.records side, RecordAdds side e.1 c r := by
  have hempty : ¬ Has ⟨[s.kind], [], [], [], [], []⟩ c := by
    cases c with
    | symbol r => exact List.not_mem_nil
    | site side x => cases side <;> exact List.not_mem_nil
    | link k => exact List.not_mem_nil
  rw [ofSnapshot, has_foldl has_addEntry, or_iff_right hempty]

theorem mem_symbols_ofSnapshot {s : Snapshot} (h : s.Regular) {r : SymbolRow} :
    r ∈ (ofSnapshot s).symbols ↔ ∃ e ∈ s.entries, r = .ofSymbol e.1 := by
  change (ofSnapshot s).Has (.symbol r) ↔ _
  rw [has_ofSnapshot]
  constructor
  · rintro ⟨e, he, heq | ⟨side, t, ht, heq | ⟨p, hp, heq | heq | heq⟩⟩⟩
    · exact ⟨e, he, Content.symbol.inj heq⟩
    · cases heq
    · have hpartner : s.Partners side ⟨e.1, t.1⟩ p := ⟨e, he, rfl, t, ht, rfl, hp⟩
      obtain ⟨f, hf, hs, -⟩ := h.partners_iff.1 hpartner
      exact ⟨f, hf, hs ▸ Content.symbol.inj heq⟩
    · cases heq
    · cases heq
  · rintro ⟨e, he, rfl⟩
    exact ⟨e, he, .inl rfl⟩

theorem mem_sites_ofSnapshot {s : Snapshot} (h : s.Regular) {z : FullRow} :
    z ∈ (ofSnapshot s).sites side ↔ ∃ x, s.HasRecord side x ∧ z = .ofSite x := by
  change (ofSnapshot s).Has (.site side z) ↔ _
  rw [has_ofSnapshot]
  constructor
  · rintro ⟨e, he, heq | ⟨own, t, ht, heq | ⟨p, hp, heq | heq | heq⟩⟩⟩
    · cases heq
    · cases heq
      exact ⟨⟨e.1, t.1⟩, ⟨e, he, rfl, t, ht, rfl⟩, rfl⟩
    · cases heq
    · have hpartner : s.Partners own ⟨e.1, t.1⟩ p := ⟨e, he, rfl, t, ht, rfl, hp⟩
      cases heq
      exact ⟨p, (h.partners_iff.1 hpartner).hasRecord, rfl⟩
    · cases heq
  · rintro ⟨⟨s, l⟩, ⟨e, he, rfl, t, ht, rfl⟩, rfl⟩
    exact ⟨e, he, .inr ⟨side, t, ht, .inl rfl⟩⟩

theorem mem_links_ofSnapshot {s : Snapshot} (h : s.Regular) {z : FullRow} :
    .of side x z ∈ (ofSnapshot s).links ↔
      ∃ a b, s.Partners side a b ∧ x = .ofSite a ∧ z = .ofSite b := by
  change (ofSnapshot s).Has (.link _) ↔ _
  rw [has_ofSnapshot]
  constructor
  · rintro ⟨e, he, heq | ⟨own, t, ht, heq | ⟨p, hp, heq | heq | heq⟩⟩⟩
    · cases heq
    · cases heq
    · cases heq
    · cases heq
    · have hpartner : s.Partners own ⟨e.1, t.1⟩ p := ⟨e, he, rfl, t, ht, rfl, hp⟩
      have hturned := h.partners_iff.1 hpartner
      -- A link that was written from the other side has its ends exchanged.
      cases side <;> cases own <;> cases heq
      · exact ⟨_, _, hpartner, rfl, rfl⟩
      · exact ⟨_, _, hturned, rfl, rfl⟩
      · exact ⟨_, _, hturned, rfl, rfl⟩
      · exact ⟨_, _, hpartner, rfl, rfl⟩
  · rintro ⟨⟨s, l⟩, y, ⟨e, he, rfl, t, ht, rfl, hy⟩, rfl, rfl⟩
    exact ⟨e, he, .inr ⟨side, t, ht, .inr ⟨y, hy, .inr (.inr rfl)⟩⟩⟩

end Tables

/-! ## Rows of named places -/

theorem SymbolRow.toSymbol_ofSymbol (s : Symbol) : (SymbolRow.ofSymbol s).toSymbol = s := by
  cases s <;> rfl

theorem SymbolRow.ofSymbol_injective : Function.Injective SymbolRow.ofSymbol :=
  Function.LeftInverse.injective SymbolRow.toSymbol_ofSymbol

theorem FullRow.toSite_ofSite {x : Site} (h : x.location.file.Named) :
    (FullRow.ofSite x).toSite = x := by
  have hsymbol := SymbolRow.toSymbol_ofSymbol x.symbol
  have hlocation : (LocationRow.ofLocation x.location).toLocation = x.location := by
    rw [LocationRow.toLocation, LocationRow.ofLocation, h.ofText_toText]
  rw [FullRow.toSite, FullRow.ofSite, hsymbol, hlocation]

theorem FullRow.ofSite_inj {x y : Site} (hx : x.location.file.Named) (hy : y.location.file.Named)
    (h : FullRow.ofSite x = .ofSite y) : x = y := by
  rw [← toSite_ofSite hx, ← toSite_ofSite hy, h]

end Store

namespace Snapshot

variable {s : Snapshot} {side : Side} {x y : Site}

theorem mem_locations_of_record {e : Symbol × Info} (he : e ∈ s.entries)
    {r : Location × List Site} (hr : r ∈ e.2.records side) :
    r.1 ∈ s.locations ∧ ∀ p ∈ r.2, p.location ∈ s.locations := by
  have hmem : ∀ l, l ∈ e.2.locations → l ∈ s.locations := fun l hl =>
    List.mem_flatMap.2 ⟨e, he, hl⟩
  suffices r.1 ∈ e.2.locations ∧ ∀ p ∈ r.2, p.location ∈ e.2.locations from
    ⟨hmem _ this.1, fun p hp => hmem _ (this.2 p hp)⟩
  cases side with
  | definition =>
    obtain ⟨d, hd, rfl⟩ := List.mem_map.1 hr
    have hlocations : ∀ l ∈ d.locations, l ∈ e.2.locations := fun l hl =>
      List.mem_append_left _ (List.mem_flatMap.2 ⟨d, hd, hl⟩)
    exact ⟨hlocations _ (.head _), fun p hp => hlocations _ (.tail _ (List.mem_map_of_mem hp))⟩
  | reference =>
    obtain ⟨d, hd, rfl⟩ := List.mem_map.1 hr
    have hlocations : ∀ l ∈ d.locations, l ∈ e.2.locations := fun l hl =>
      List.mem_append_right _ (List.mem_flatMap.2 ⟨d, hd, hl⟩)
    exact ⟨hlocations _ (.head _), fun p hp => hlocations _ (.tail _ (List.mem_map_of_mem hp))⟩

theorem Partners.mem_locations (h : s.Partners side x y) :
    x.location ∈ s.locations ∧ y.location ∈ s.locations := by
  obtain ⟨e, he, -, r, hr, hl, hy⟩ := h
  have hmem := mem_locations_of_record he hr
  exact ⟨hl ▸ hmem.1, hmem.2 y hy⟩

/-! ## Reading back -/

section

variable (h : s.Regular) (hnamed : ∀ l ∈ s.locations, l.file.Named) {e : Symbol × Info}
  (he : e ∈ s.entries)

include h

theorem perm_symbols :
    (Tables.ofSnapshot s).symbols.Perm (s.entries.map fun e => .ofSymbol e.1) := by
  have hnodup : (s.entries.map fun e => SymbolRow.ofSymbol e.1).Nodup := by
    have := h.symbols.map SymbolRow.ofSymbol_injective
    rwa [List.map_map] at this
  refine (List.perm_ext_iff_of_nodup (Tables.sound_ofSnapshot s).symbols hnodup).2 fun r => ?_
  rw [Tables.mem_symbols_ofSnapshot h, List.mem_map]
  simp only [eq_comm]

include he

/-- The entry of a symbol is the only one. -/
theorem Regular.entry_eq {f : Symbol × Info} (hf : f ∈ s.entries) (hs : f.1 = e.1) : f = e :=
  List.inj_on_of_nodup_map h.symbols hf he hs

theorem hasRecord_iff {l : Location} :
    s.HasRecord side ⟨e.1, l⟩ ↔ ∃ r ∈ e.2.records side, r.1 = l := by
  constructor
  · rintro ⟨f, hf, hs, r, hr, hl⟩
    rw [h.entry_eq he hf hs] at hr
    exact ⟨r, hr, hl⟩
  · rintro ⟨r, hr, hl⟩
    exact ⟨e, he, rfl, r, hr, hl⟩

theorem partners_iff_mem {r : Location × List Site} (hr : r ∈ e.2.records side) :
    s.Partners side ⟨e.1, r.1⟩ y ↔ y ∈ r.2 := by
  constructor
  · rintro ⟨f, hf, hs, t, ht, hl, hy⟩
    rw [h.entry_eq he hf hs] at ht
    rwa [← List.inj_on_of_nodup_map (h.nodup_places he side) ht hr hl]
  · exact fun hy => ⟨e, he, rfl, r, hr, rfl, hy⟩

include hnamed

theorem perm_sites (side : Side) :
    (((Tables.ofSnapshot s).sites side).filter fun x => decide (x.symbol = .ofSymbol e.1)).Perm
      ((e.2.records side).map fun r => .ofSite ⟨e.1, r.1⟩) := by
  have hnodup : ((e.2.records side).map fun r => FullRow.ofSite ⟨e.1, r.1⟩).Nodup := by
    refine List.Nodup.map_on (fun r hr t ht heq => ?_) (h.nodup_places he side).of_map
    have hsite := FullRow.ofSite_inj (hnamed _ (mem_locations_of_record he hr).1)
      (hnamed _ (mem_locations_of_record he ht).1) heq
    exact List.inj_on_of_nodup_map (h.nodup_places he side) hr ht (congrArg Site.location hsite)
  refine (List.perm_ext_iff_of_nodup
    (((Tables.sound_ofSnapshot s).sites side).filter _) hnodup).2 fun z => ?_
  rw [List.mem_filter, Tables.mem_sites_ofSnapshot h, decide_eq_true_eq, List.mem_map]
  constructor
  · rintro ⟨⟨⟨t, l⟩, hx, rfl⟩, hs⟩
    have ht : t = e.1 := SymbolRow.ofSymbol_injective hs
    subst ht
    obtain ⟨r, hr, rfl⟩ := (hasRecord_iff h he).1 hx
    exact ⟨r, hr, rfl⟩
  · rintro ⟨r, hr, rfl⟩
    exact ⟨⟨_, (hasRecord_iff h he).2 ⟨r, hr, rfl⟩, rfl⟩, rfl⟩

theorem perm_partners {r : Location × List Site} (hr : r ∈ e.2.records side) :
    ((Tables.ofSnapshot s).partners side (.ofSite ⟨e.1, r.1⟩)).Perm r.2 := by
  have hplace : r.1.file.Named := hnamed _ (mem_locations_of_record he hr).1
  have hpartner : ∀ p ∈ r.2, p.location.file.Named := fun p hp =>
    hnamed _ ((mem_locations_of_record he hr).2 p hp)
  have hnodup : (r.2.map FullRow.ofSite).Nodup :=
    (h.nodup_partners he hr).map_on fun p hp q hq =>
      FullRow.ofSite_inj (hpartner p hp) (hpartner q hq)
  have hrows : ((Tables.ofSnapshot s).partnerRows side (.ofSite ⟨e.1, r.1⟩)).Perm
      (r.2.map FullRow.ofSite) := by
    refine (List.perm_ext_iff_of_nodup
      ((Tables.sound_ofSnapshot s).nodup_partnerRows _ _) hnodup).2 fun z => ?_
    rw [Tables.mem_partnerRows, Tables.mem_links_ofSnapshot h, List.mem_map]
    constructor
    · rintro ⟨a, b, hab, ha, rfl⟩
      have hsame := FullRow.ofSite_inj hplace (hnamed _ hab.mem_locations.1) ha
      subst hsame
      exact ⟨b, (partners_iff_mem h he hr).1 hab, rfl⟩
    · rintro ⟨p, hp, rfl⟩
      exact ⟨_, p, (partners_iff_mem h he hr).2 hp, rfl, rfl⟩
  have hback : (r.2.map FullRow.ofSite).map FullRow.toSite = r.2 := by
    rw [List.map_map]
    exact (List.map_congr_left fun p hp => FullRow.toSite_ofSite (hpartner p hp)).trans
      (List.map_id r.2)
  exact hback ▸ hrows.map FullRow.toSite

theorem records_alike (side : Side) : Alike (fun a b => a.1 = b.1 ∧ a.2.Perm b.2)
    ((Tables.ofSnapshot s).records side (.ofSymbol e.1)) (e.2.records side) := by
  have hsites := (perm_sites h hnamed he side).map fun x =>
    (x.location.toLocation, (Tables.ofSnapshot s).partners side x)
  rw [List.map_map] at hsites
  refine Alike.of_perm_map hsites fun r hr => ⟨?_, perm_partners h hnamed he hr⟩
  have hplace : r.1.file.Named := hnamed _ (mem_locations_of_record he hr).1
  exact congrArg Site.location (FullRow.toSite_ofSite (x := ⟨e.1, r.1⟩) hplace)

/-- What the tables tell about a symbol is what the snapshot does. -/
theorem info_same : ((Tables.ofSnapshot s).info (.ofSymbol e.1)).Same e.2.stripped := by
  constructor
  · have hdefinitions : (e.2.records .definition).map
        (fun r => (⟨r.1, none, r.2, none, none⟩ : Definition)) = e.2.stripped.definitions := by
      rw [Info.records, List.map_map]
      rfl
    rw [← hdefinitions]
    exact (records_alike h hnamed he .definition).map fun a b hab => ⟨hab.1, rfl, hab.2, rfl, rfl⟩
  · have hreferences : (e.2.records .reference).map (fun r => (⟨r.1, r.2⟩ : Reference)) =
        e.2.stripped.references := by
      rw [Info.records, List.map_map]
      exact List.map_id _
    rw [← hreferences]
    exact (records_alike h hnamed he .reference).map fun a b hab => hab

end

/-- The tables of a snapshot tell what it tells. -/
theorem tables_same (h : s.Regular) (hnamed : ∀ l ∈ s.locations, l.file.Named) :
    Snapshot.Same ⟨s.kind, (Tables.ofSnapshot s).symbols.map fun r =>
      (r.toSymbol, (Tables.ofSnapshot s).info r), none⟩ s.stripped := by
  refine ⟨rfl, rfl, ?_⟩
  have hentries := (perm_symbols h).map fun r => (r.toSymbol, (Tables.ofSnapshot s).info r)
  rw [List.map_map] at hentries
  have hsame : Alike (fun a b => a.1 = b.1 ∧ a.2.Same b.2.stripped)
      ((Tables.ofSnapshot s).symbols.map fun r => (r.toSymbol, (Tables.ofSnapshot s).info r))
      s.entries :=
    Alike.of_perm_map hentries fun e he =>
      ⟨SymbolRow.toSymbol_ofSymbol e.1, info_same h hnamed he⟩
  have hmap := hsame.map (S := fun a b => a.1 = b.1 ∧ a.2.Same b.2) (f := id)
    (g := fun e => (e.1, e.2.stripped)) fun _ _ hab => hab
  rwa [List.map_id] at hmap

end Snapshot

/-! ## Files -/

namespace Store

variable {fs : Files} {p : Path} {s : Snapshot} {db : Database}

/-- Where there is room for a file, and for the one that was there before under its other name, a
database is put. -/
theorem putDatabase_written (h : fs.HasRoom p)
    (hold : fs.at? p = none ∨ fs.HasRoom (p.parent.child (p.name ++ ".bak"))) (db : Database) :
    ∃ fs', putDatabase fs p db = .ok fs' ∧ fs.Keeps fs' ∧
      fs'.at? p = some (.regular (.database db)) := by
  by_cases hfile : fs.isRegular p = true
  · have hnew : fs.HasRoom (p.parent.child (p.name ++ ".bak")) := by
      refine hold.resolve_left fun hnone => ?_
      rw [Files.isRegular, hnone] at hfile
      cases hfile
    obtain ⟨fs₁, hrename, hkeeps, hgone⟩ := h.renamed hnew hfile
    obtain ⟨fs', hwrite, hkeeps', hat⟩ := (h.of_keeps hkeeps hgone).written (.database db)
    refine ⟨fs', ?_, hkeeps.trans hkeeps', hat⟩
    rw [putDatabase, if_pos hfile, hrename]
    exact hwrite
  · obtain ⟨fs', hwrite, hkeeps, hat⟩ := h.written (.database db)
    refine ⟨fs', ?_, hkeeps, hat⟩
    rw [putDatabase, if_neg hfile]
    exact hwrite

theorem databasePath_of_isDirectory (h : fs.isDirectory p = false) : databasePath fs p = p := by
  rw [databasePath, h]
  rfl

theorem saveDatabase_written (hdb : Database.ofSnapshot s = .ok db) (h : fs.HasRoom p)
    (hold : fs.at? p = none ∨ fs.HasRoom (p.parent.child (p.name ++ ".bak"))) :
    ∃ fs', saveDatabase fs p s = (fs', none) ∧ fs'.isDirectory p.parent = true ∧
      fs'.at? p = some (.regular (.database db)) := by
  obtain ⟨fs', hput, hkeeps, hat⟩ := putDatabase_written h hold db
  refine ⟨fs', ?_, hkeeps.isDirectory h.inside, hat⟩
  simp only [saveDatabase, databasePath_of_isDirectory h.notDirectory, hdb, Files.within,
    Files.makeDirectories_of_isDirectory h.inside, hput, Files.after]
  rfl

theorem loadDatabase_written (hdir : fs.isDirectory p.parent = true)
    (hat : fs.at? p = some (.regular (.database db))) {t : Snapshot}
    (ht : db.toSnapshot? = some t) : loadDatabase fs p = (fs, .ok t) := by
  have hfile : fs.isDirectory p = false := by rw [Files.isDirectory, hat]
  simp only [loadDatabase, databasePath_of_isDirectory hfile,
    Files.makeDirectories_of_isDirectory hdir, hat, ht]

/-- `Database.ofSnapshot` writes every snapshot into tables: no row that is looked for is found
twice, and none is refused. From the tables of a `Regular` snapshot whose paths are `Named` by
texts, `toSnapshot?` reads the `Same` as the `stripped` snapshot, without docs, notes and source
texts. So do `saveDatabase` and `loadDatabase` where there is room for the file, and for the one
that was there before under its other name. -/
theorem database_faithful :
    (∀ s : Snapshot, ∃ db, Database.ofSnapshot s = .ok db) ∧
    ∀ s : Snapshot, s.Regular → (∀ l ∈ s.locations, l.file.Named) →
      ∃ (db : Database) (t : Snapshot), Database.ofSnapshot s = .ok db ∧
        db.toSnapshot? = some t ∧ t.Same s.stripped ∧
        ∀ (fs : Files) (p : Path), fs.HasRoom p →
          (fs.at? p = none ∨ fs.HasRoom (p.parent.child (p.name ++ ".bak"))) →
          ∃ fs', saveDatabase fs p s = (fs', none) ∧ loadDatabase fs' p = (fs', .ok t) := by
  refine ⟨fun s => ⟨_, (Tables.ofSnapshot_store s).1⟩, fun s h hnamed => ?_⟩
  obtain ⟨hdb, hsound, hkinds⟩ := Tables.ofSnapshot_store s
  have hread := Tables.toSnapshot?_store hsound hkinds
  refine ⟨_, _, hdb, hread, Snapshot.tables_same h hnamed, fun fs p hroom hold => ?_⟩
  obtain ⟨fs', hsave, hdir, hat⟩ := saveDatabase_written hdb hroom hold
  exact ⟨fs', hsave, loadDatabase_written hdir hat hread⟩

/-- A function and a method of an unknown class with one name and one place; the method calls the
function. -/
def namesakes : Snapshot :=
  ⟨"cross_ref_index",
    [(.function "f", ⟨[⟨⟨.ofText "a.py", 1, 0, 2, 8, 0, 17⟩, some "doc", [], none, none⟩],
      [⟨⟨.ofText "a.py", 2, 4, 2, 7, 13, 16⟩,
        [⟨.method "f" none, ⟨.ofText "a.py", 1, 0, 2, 8, 0, 17⟩⟩]⟩]⟩),
     (.method "f" none, ⟨[⟨⟨.ofText "a.py", 1, 0, 2, 8, 0, 17⟩, none,
      [⟨.function "f", ⟨.ofText "a.py", 2, 4, 2, 7, 13, 16⟩⟩], some ⟨"", "", ""⟩, none⟩], []⟩)],
    none⟩

theorem database_faithful_namesakes :
    namesakes.Regular ∧ (∀ l ∈ namesakes.locations, l.file.Named) ∧
      (Files.empty ["w"]).HasRoom (.ofText "index.sqlite") ∧
      ∃ fs' t, saveDatabase (Files.empty ["w"]) (.ofText "index.sqlite") namesakes = (fs', none) ∧
        loadDatabase fs' (.ofText "index.sqlite") = (fs', .ok t) ∧
        t.Same namesakes.stripped := by
  have hregular : namesakes.Regular := by
    refine ⟨by simp [namesakes], by simp [namesakes], by simp [namesakes], by simp [namesakes],
      by simp [namesakes], ?_⟩
    rintro ⟨f, l⟩ ⟨g, k⟩
    simp only [Snapshot.Calls, Snapshot.CalledBy, namesakes, List.mem_cons, List.not_mem_nil,
      or_false, exists_eq_or_imp, exists_eq_left, and_false, Site.mk.injEq, false_or, false_and,
      exists_false]
    constructor
    · rintro ⟨rfl, rfl, rfl, rfl⟩
      exact ⟨rfl, rfl, rfl, rfl⟩
    · rintro ⟨rfl, rfl, rfl, rfl⟩
      exact ⟨rfl, rfl, rfl, rfl⟩
  have hnamed : ∀ l ∈ namesakes.locations, l.file.Named := by
    have hpath : (Path.ofText "a.py").Named := ⟨_, rfl⟩
    simp [namesakes, Snapshot.locations, Info.locations, Definition.locations, Reference.locations,
      hpath]
  have hnothing : (Files.empty ["w"]).at? (.ofText "index.sqlite") = none := by rfl
  have hroom : (Files.empty ["w"]).HasRoom (.ofText "index.sqlite") :=
    ⟨by rfl, by rfl, by decide, by rfl, by rw [hnothing]; nofun⟩
  obtain ⟨db, t, -, -, hsame, hfiles⟩ := database_faithful.2 namesakes hregular hnamed
  obtain ⟨fs', hsave, hload⟩ := hfiles _ _ hroom (.inl hnothing)
  exact ⟨hregular, hnamed, hroom, fs', t, hsave, hload, hsame⟩

end Store

end CallAtlas
