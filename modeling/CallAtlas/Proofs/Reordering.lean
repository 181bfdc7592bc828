import CallAtlas.Snapshot
import Mathlib.Data.List.Forall2
import Mathlib.Data.List.Nodup
import Mathlib.Data.List.Perm.Basic

/-! # Snapshots up to the order of their lists

`Alike R` compares lists up to their order and their items by `R`. With it, two snapshots are the
same (`Snapshot.Same`) if reordering the entries, the definitions and references of each, and the
calls and callers of these makes them equal. Snapshots that are the same as a third one are the same
(`Snapshot.Same.of_common`), and reordering brings in no new places (`Snapshot.Same.mem_locations`). -/

namespace CallAtlas

/-- Some order of a list has its items related to those of another, one by one. -/
def Alike {α β : Type} (R : α → β → Prop) (as : List α) (bs : List β) : Prop :=
  ∃ cs, as.Perm cs ∧ List.Forall₂ R cs bs

namespace Alike

variable {α β γ δ : Type} {R : α → β → Prop} {as : List α} {bs : List β}

theorem map {S : γ → δ → Prop} {f : α → γ} {g : β → δ} (h : Alike R as bs)
    (hfg : ∀ a b, R a b → S (f a) (g b)) : Alike S (as.map f) (bs.map g) := by
  obtain ⟨cs, hperm, hall⟩ := h
  refine ⟨cs.map f, hperm.map f, ?_⟩
  rw [List.forall₂_map_left_iff, List.forall₂_map_right_iff]
  exact hall.imp fun a b => hfg a b

/-- A list is related to the one that it is a rearranged image of. -/
theorem of_perm_map {f : β → α} (hperm : as.Perm (bs.map f)) (hR : ∀ b ∈ bs, R (f b) b) :
    Alike R as bs := by
  refine ⟨bs.map f, hperm, ?_⟩
  rw [List.forall₂_map_left_iff, List.forall₂_same]
  exact hR

theorem of_perm {as bs : List α} (h : as.Perm bs) : Alike Eq as bs :=
  ⟨bs, h, List.forall₂_same.2 fun _ _ => rfl⟩

theorem exists_of_mem (h : Alike R as bs) {b : β} (hb : b ∈ bs) : ∃ a ∈ as, R a b := by
  obtain ⟨cs, hperm, hall⟩ := h
  suffices ∃ a ∈ cs, R a b by
    obtain ⟨a, ha, hab⟩ := this
    exact ⟨a, hperm.mem_iff.2 ha, hab⟩
  clear hperm
  induction hall with
  | nil => cases hb
  | cons hR _ ih =>
    rcases List.mem_cons.1 hb with rfl | hb
    · exact ⟨_, .head _, hR⟩
    · obtain ⟨a, ha, hab⟩ := ih hb
      exact ⟨a, .tail _ ha, hab⟩

/-- Lists that are alike to one list are alike. -/
theorem of_common {R : α → α → Prop} (hR : ∀ a b c, R a c → R b c → R a b) {as bs cs : List α}
    (ha : Alike R as cs) (hb : Alike R bs cs) : Alike R as bs := by
  obtain ⟨as', hpa, hra⟩ := ha
  obtain ⟨bs', hpb, hrb⟩ := hb
  have hall : List.Forall₂ R as' bs' := by
    clear hpa hpb
    induction hra generalizing bs' with
    | nil =>
      cases hrb
      exact .nil
    | cons h _ ih =>
      cases hrb with
      | cons h' hrest => exact .cons (hR _ _ _ h h') (ih _ hrest)
  have hcomp : Relation.Comp (List.Forall₂ R) List.Perm as' bs := ⟨bs', hall, hpb.symm⟩
  rw [List.forall₂_comp_perm_eq_perm_comp_forall₂] at hcomp
  obtain ⟨ds, hpd, hrd⟩ := hcomp
  exact ⟨ds, hpa.trans hpd, hrd⟩

end Alike

/-! ## Records -/

def Definition.Same (d e : Definition) : Prop :=
  d.location = e.location ∧ d.doc = e.doc ∧ d.calls.Perm e.calls ∧ d.note = e.note ∧
    d.source = e.source

def Reference.Same (r s : Reference) : Prop :=
  r.location = s.location ∧ r.callers.Perm s.callers

def Info.Same (i j : Info) : Prop :=
  Alike Definition.Same i.definitions j.definitions ∧ Alike Reference.Same i.references j.references

/-- A definition without doc, note and source text. -/
def Definition.stripped (d : Definition) : Definition := ⟨d.location, none, d.calls, none, none⟩

def Info.stripped (i : Info) : Info := ⟨i.definitions.map Definition.stripped, i.references⟩

/-- The snapshot without docs, notes, source texts and metadata. -/
def Snapshot.stripped (s : Snapshot) : Snapshot :=
  ⟨s.kind, s.entries.map fun e => (e.1, e.2.stripped), none⟩

/-- Two snapshots are equal up to the order of all their lists. -/
def Snapshot.Same (s t : Snapshot) : Prop :=
  s.kind = t.kind ∧ s.metadata = t.metadata ∧
    Alike (fun e f => e.1 = f.1 ∧ e.2.Same f.2) s.entries t.entries

/-! ## Places -/

def Definition.locations (d : Definition) : List Location :=
  d.location :: d.calls.map Site.location

def Reference.locations (r : Reference) : List Location :=
  r.location :: r.callers.map Site.location

def Info.locations (i : Info) : List Location :=
  i.definitions.flatMap Definition.locations ++ i.references.flatMap Reference.locations

/-- All places that a snapshot tells. -/
def Snapshot.locations (s : Snapshot) : List Location := s.entries.flatMap fun e => e.2.locations

section Same

theorem Definition.Same.of_common {d e f : Definition} (hd : d.Same f) (he : e.Same f) :
    d.Same e := by
  obtain ⟨hl, hdoc, hcalls, hnote, hsource⟩ := hd
  obtain ⟨hl', hdoc', hcalls', hnote', hsource'⟩ := he
  exact ⟨hl.trans hl'.symm, hdoc.trans hdoc'.symm, hcalls.trans hcalls'.symm,
    hnote.trans hnote'.symm, hsource.trans hsource'.symm⟩

theorem Reference.Same.of_common {r s t : Reference} (hr : r.Same t) (hs : s.Same t) : r.Same s :=
  ⟨hr.1.trans hs.1.symm, hr.2.trans hs.2.symm⟩

theorem Info.Same.of_common {i j k : Info} (hi : i.Same k) (hj : j.Same k) : i.Same j :=
  ⟨hi.1.of_common (fun _ _ _ h h' => h.of_common h') hj.1,
    hi.2.of_common (fun _ _ _ h h' => h.of_common h') hj.2⟩

theorem Snapshot.Same.of_common {s t u : Snapshot} (hs : s.Same u) (ht : t.Same u) : s.Same t :=
  ⟨hs.1.trans ht.1.symm, hs.2.1.trans ht.2.1.symm,
    hs.2.2.of_common (fun _ _ _ h h' => ⟨h.1.trans h'.1.symm, h.2.of_common h'.2⟩) ht.2.2⟩

theorem Definition.Same.mem_locations {d e : Definition} (h : d.Same e) {l : Location}
    (hl : l ∈ e.locations) : l ∈ d.locations := by
  obtain ⟨hplace, -, hcalls, -⟩ := h
  show l ∈ d.location :: d.calls.map Site.location
  rw [hplace]
  exact ((hcalls.map _).cons _).mem_iff.2 hl

theorem Reference.Same.mem_locations {r s : Reference} (h : r.Same s) {l : Location}
    (hl : l ∈ s.locations) : l ∈ r.locations := by
  obtain ⟨hplace, hcallers⟩ := h
  show l ∈ r.location :: r.callers.map Site.location
  rw [hplace]
  exact ((hcallers.map _).cons _).mem_iff.2 hl

theorem Info.Same.mem_locations {i j : Info} (h : i.Same j) {l : Location} (hl : l ∈ j.locations) :
    l ∈ i.locations := by
  rcases List.mem_append.1 hl with hl | hl
  · obtain ⟨e, he, hl⟩ := List.mem_flatMap.1 hl
    obtain ⟨d, hd, hde⟩ := h.1.exists_of_mem he
    exact List.mem_append_left _ (List.mem_flatMap.2 ⟨d, hd, hde.mem_locations hl⟩)
  · obtain ⟨s, hs, hl⟩ := List.mem_flatMap.1 hl
    obtain ⟨r, hr, hrs⟩ := h.2.exists_of_mem hs
    exact List.mem_append_right _ (List.mem_flatMap.2 ⟨r, hr, hrs.mem_locations hl⟩)

theorem Snapshot.Same.mem_locations {s t : Snapshot} (h : s.Same t) {l : Location}
    (hl : l ∈ t.locations) : l ∈ s.locations := by
  obtain ⟨f, hf, hl⟩ := List.mem_flatMap.1 hl
  obtain ⟨e, he, -, hef⟩ := h.2.2.exists_of_mem hf
  exact List.mem_flatMap.2 ⟨e, he, hef.mem_locations hl⟩

end Same

end CallAtlas
