import CallAtlas.Proofs.Index.Links
import CallAtlas.Proofs.Reordering
import Mathlib.Data.List.Perm.Basic

/-! # Additions in any order

What is added to an index are records (`Record`): definitions and references. One addition puts the
record on its card and one record at the other end of each of its calls (`Record.ends`, `add_eq`).
An index holds what it held before and what the records that are put on its cards tell
(`holds_foldl_put`), which does not depend on their order. Tidy indexes that hold the same have the
same snapshots up to the order of lists (`same_of_holds`).

* `added_perm`: this is so for the additions of a list in any order. -/

namespace CallAtlas

/-! ## Maps up to the order of their keys -/

/-- Maps with the same keys are alike if their values are, key by key. -/
theorem OrderedMap.alike_entries {κ α β : Type} [DecidableEq κ] {m : OrderedMap κ α}
    {n : OrderedMap κ β} {R : κ × α → κ × β → Prop} (hkeys : ∀ k, k ∈ m.keys ↔ k ∈ n.keys)
    (hR : ∀ k a b, m.get? k = some a → n.get? k = some b → R (k, a) (k, b)) :
    Alike R m.entries n.entries := by
  have hperm : m.keys.Perm n.keys :=
    (List.perm_ext_iff_of_nodup m.nodup_keys n.nodup_keys).2 hkeys
  have hfst : List.Forall₂ (fun e k => e.1 = k) m.entries m.keys := by
    rw [keys, List.forall₂_map_right_iff, List.forall₂_same]
    exact fun _ _ => rfl
  -- the entries of `m` in the order of the keys of `n`
  have hcomp : Relation.Comp (List.Forall₂ fun (e : κ × α) k => e.1 = k) List.Perm
      m.entries n.keys := ⟨m.keys, hfst, hperm⟩
  rw [List.forall₂_comp_perm_eq_perm_comp_forall₂] at hcomp
  obtain ⟨es, hes, hall⟩ := hcomp
  refine ⟨es, hes, ?_⟩
  rw [keys, List.forall₂_map_right_iff, List.forall₂_iff_zip] at hall
  refine List.forall₂_iff_zip.2 ⟨hall.1, fun {e f} hzip => ?_⟩
  obtain ⟨he, hf⟩ := List.of_mem_zip hzip
  obtain ⟨k, a⟩ := e
  obtain ⟨k', b⟩ := f
  obtain rfl : k = k' := hall.2 hzip
  exact hR k a b (get?_eq_some_iff.2 (hes.mem_iff.2 he)) (get?_eq_some_iff.2 hf)

namespace Linked

/-! ## Records -/

/-- A definition or a reference of a symbol. -/
inductive Record where
  | definition (s : Symbol) (d : Definition)
  | reference (s : Symbol) (r : Reference)
  deriving DecidableEq, Repr

namespace Record

/-- Puts a record on the card of its symbol, and nothing anywhere else. -/
def put (ix : Linked) : Record → Linked
  | .definition s d => (ix.onCard s (·.addDefinition d)).own d.location s
  | .reference s r => ix.onCard s (·.addReference r)

/-- Adds a record to an index. -/
def add (ix : Linked) : Record → Linked
  | .definition s d => ix.addDefinition s d
  | .reference s r => ix.addReference s r

/-- A record with the records at the other ends of its calls. -/
def ends : Record → List Record
  | .definition s d =>
    .definition s d :: d.calls.map fun c => .reference c.symbol ⟨c.location, [⟨s, d.location⟩]⟩
  | .reference s r =>
    .reference s r :: r.callers.map fun c =>
      .definition c.symbol ((Definition.bare c.location).addCall ⟨s, r.location⟩)

theorem add_eq (ix : Linked) (r : Record) : r.add ix = r.ends.foldl put ix := by
  cases r with
  | definition s d => rw [ends, List.foldl_cons, List.foldl_map]; rfl
  | reference s r => rw [ends, List.foldl_cons, List.foldl_map]; rfl

theorem foldl_add_eq (rs : List Record) (ix : Linked) :
    rs.foldl add ix = (rs.flatMap ends).foldl put ix := by
  rw [List.foldl_flatMap]
  congr 1
  funext ix r
  exact add_eq ix r

end Record

/-! ## Facts -/

/-- What an index can hold, apart from docs and notes. -/
inductive Fact where
  | symbol (s : Symbol)
  | definition (x : Site)
  | call (caller call : Site)
  | reference (x : Site)
  | caller (call caller : Site)

def Holds (ix : Linked) : Fact → Prop
  | .symbol s => s ∈ ix.cards.keys
  | .definition x => ∃ d, ix.definitionAt? x.symbol x.location = some d
  | .call caller call => ix.Calls caller call
  | .reference x => ix.Refers x
  | .caller call caller => ix.CalledBy call caller

/-- What a record tells by itself. -/
def Record.Tells : Record → Fact → Prop
  | .definition s d, f => f = .symbol s ∨ f = .definition ⟨s, d.location⟩ ∨
      ∃ c ∈ d.calls, f = .call ⟨s, d.location⟩ c
  | .reference s r, f => f = .symbol s ∨ f = .reference ⟨s, r.location⟩ ∨
      ∃ c ∈ r.callers, f = .caller ⟨s, r.location⟩ c

variable {ix ix' : Linked}

theorem not_holds_empty (f : Fact) : ¬ Linked.empty.Holds f := by
  cases f with
  | symbol s => exact List.not_mem_nil
  | definition x => rintro ⟨d, hd⟩; cases hd
  | call caller call => rintro ⟨d, hd, -⟩; cases hd
  | reference x => rintro ⟨r, hr⟩; cases hr
  | caller call caller => rintro ⟨r, hr, -⟩; cases hr

theorem mem_keys_onCard {s t : Symbol} {f : Card → Card} :
    t ∈ (ix.onCard s f).cards.keys ↔ t ∈ ix.cards.keys ∨ t = s :=
  OrderedMap.mem_keys_insert

theorem defines_onCard_addDefinition {s : Symbol} {d : Definition} {x : Site} :
    (∃ e, (ix.onCard s (·.addDefinition d)).definitionAt? x.symbol x.location = some e) ↔
      (∃ e, ix.definitionAt? x.symbol x.location = some e) ∨ x = ⟨s, d.location⟩ := by
  obtain ⟨t, l⟩ := x
  rw [definitionAt?_onCard_addDefinition, Site.mk.injEq]
  by_cases h : s = t ∧ d.location = l
  · obtain ⟨rfl, rfl⟩ := h
    simp
  · have h' : ¬ (t = s ∧ l = d.location) := fun e => h ⟨e.1.symm, e.2.symm⟩
    rw [if_neg h, or_iff_left h']

theorem holds_put (r : Record) (f : Fact) : (r.put ix).Holds f ↔ ix.Holds f ∨ r.Tells f := by
  cases r with
  | definition s d =>
    cases f with
    | symbol t => exact mem_keys_onCard.trans (by simp [Record.Tells, Holds])
    | definition x => exact defines_onCard_addDefinition.trans (by simp [Record.Tells, Holds])
    | call caller call =>
      exact calls_onCard_addDefinition.trans (by simp [Record.Tells, Holds, and_comm])
    | reference x => exact refers_onCard_addDefinition.trans (by simp [Record.Tells, Holds])
    | caller call caller =>
      exact calledBy_onCard_addDefinition.trans (by simp [Record.Tells, Holds])
  | reference s r =>
    cases f with
    | symbol t => exact mem_keys_onCard.trans (by simp [Record.Tells, Holds])
    | definition x => simp [Record.Tells, Holds, Record.put]
    | call caller call => exact calls_onCard_addReference.trans (by simp [Record.Tells, Holds])
    | reference x => exact refers_onCard_addReference.trans (by simp [Record.Tells, Holds])
    | caller call caller =>
      exact calledBy_onCard_addReference.trans (by simp [Record.Tells, Holds, and_comm])

theorem holds_foldl_put (rs : List Record) (ix : Linked) (f : Fact) :
    (rs.foldl Record.put ix).Holds f ↔ ix.Holds f ∨ ∃ r ∈ rs, r.Tells f := by
  induction rs generalizing ix with
  | nil => simp
  | cons r rs ih => rw [List.foldl_cons, ih, holds_put, or_assoc, List.exists_mem_cons_iff]

/-- The index with the additions of a list made to an empty one. -/
def added (rs : List Record) : Linked := rs.foldl Record.add .empty

theorem holds_added (rs : List Record) (f : Fact) :
    (added rs).Holds f ↔ ∃ r ∈ rs, ∃ x ∈ r.ends, x.Tells f := by
  rw [added, Record.foldl_add_eq, holds_foldl_put, or_iff_right (not_holds_empty f)]
  constructor
  · rintro ⟨x, hx, hf⟩
    obtain ⟨r, hr, hx⟩ := List.mem_flatMap.1 hx
    exact ⟨r, hr, x, hx, hf⟩
  · rintro ⟨r, hr, x, hx, hf⟩
    exact ⟨x, List.mem_flatMap.2 ⟨r, hr, hx⟩, hf⟩

theorem tidy_added (rs : List Record) : (added rs).Tidy := by
  refine List.foldlRecOn (motive := Tidy) rs Record.add .empty fun ix h r _ => ?_
  cases r with
  | definition s d => exact h.addDefinition lasting_tidy s d
  | reference s r => exact h.addReference lasting_tidy s r

/-! ## Snapshots -/

section
variable (h : ix.Tidy) (h' : ix'.Tidy) (hf : ∀ f, ix.Holds f ↔ ix'.Holds f)
include h h' hf

theorem definitions_alike {s : Symbol} {c c' : Card} (hc : ix.cards.get? s = some c)
    (hc' : ix'.cards.get? s = some c') :
    Alike Definition.Same c.toInfo.stripped.definitions c'.toInfo.stripped.definitions := by
  have hat : ∀ l, ix.definitionAt? s l = c.definitions.get? l := fun l => by
    rw [definitionAt?, hc]; rfl
  have hat' : ∀ l, ix'.definitionAt? s l = c'.definitions.get? l := fun l => by
    rw [definitionAt?, hc']; rfl
  have halike : Alike (fun e f => e.2.stripped.Same f.2.stripped) c.definitions.entries
      c'.definitions.entries := by
    refine OrderedMap.alike_entries (fun l => ?_) fun l d e hd he => ?_
    · rw [OrderedMap.mem_keys_iff, OrderedMap.mem_keys_iff]
      simpa only [Holds, hat, hat'] using hf (.definition ⟨s, l⟩)
    · rw [← hat] at hd
      rw [← hat'] at he
      obtain ⟨hl, hnodup⟩ := h.definition s l d hd
      obtain ⟨hl', hnodup'⟩ := h'.definition s l e he
      refine ⟨hl.trans hl'.symm, rfl, ?_, rfl, rfl⟩
      refine (List.perm_ext_iff_of_nodup hnodup hnodup').2 fun call => ?_
      simpa only [Holds, Calls, hd, he, Option.some.injEq, exists_eq_left'] using
        hf (.call ⟨s, l⟩ call)
  simpa only [Info.stripped, Card.toInfo, OrderedMap.values, List.map_map, Function.comp_def] using
    halike.map fun _ _ hef => hef

theorem references_alike {s : Symbol} {c c' : Card} (hc : ix.cards.get? s = some c)
    (hc' : ix'.cards.get? s = some c') :
    Alike Reference.Same c.toInfo.stripped.references c'.toInfo.stripped.references := by
  have hat : ∀ l, ix.referenceAt? s l = c.references.get? l := fun l => by
    rw [referenceAt?, hc]; rfl
  have hat' : ∀ l, ix'.referenceAt? s l = c'.references.get? l := fun l => by
    rw [referenceAt?, hc']; rfl
  have halike : Alike (fun e f => e.2.Same f.2) c.references.entries c'.references.entries := by
    refine OrderedMap.alike_entries (fun l => ?_) fun l r t hr ht => ?_
    · rw [OrderedMap.mem_keys_iff, OrderedMap.mem_keys_iff]
      simpa only [Holds, Refers, hat, hat'] using hf (.reference ⟨s, l⟩)
    · rw [← hat] at hr
      rw [← hat'] at ht
      obtain ⟨hl, hnodup⟩ := h.reference s l r hr
      obtain ⟨hl', hnodup'⟩ := h'.reference s l t ht
      refine ⟨hl.trans hl'.symm, (List.perm_ext_iff_of_nodup hnodup hnodup').2 fun caller => ?_⟩
      simpa only [Holds, CalledBy, hr, ht, Option.some.injEq, exists_eq_left'] using
        hf (.caller ⟨s, l⟩ caller)
  exact halike.map fun _ _ hef => hef

/-- Tidy indexes that hold the same tell the same up to the order of their lists. -/
theorem same_of_holds : ix.snapshot.stripped.Same ix'.snapshot.stripped := by
  have halike : Alike (fun e f => e.1 = f.1 ∧ e.2.toInfo.stripped.Same f.2.toInfo.stripped)
      ix.cards.entries ix'.cards.entries :=
    OrderedMap.alike_entries (fun s => hf (.symbol s)) fun s c c' hc hc' =>
      ⟨rfl, definitions_alike h h' hf hc hc', references_alike h h' hf hc hc'⟩
  refine ⟨rfl, rfl, ?_⟩
  simpa only [Snapshot.stripped, snapshot, items, List.map_map, Function.comp_def] using
    halike.map fun _ _ hef => hef

end

/-- Records that are `added` in any order give snapshots that are the `Same` once they are
`stripped` of docs and notes. The index `Holds` just what the added records and the other ends of
their calls (`Record.ends`) tell. -/
theorem added_perm {rs rs' : List Record} (h : rs.Perm rs') :
    (added rs).snapshot.stripped.Same (added rs').snapshot.stripped ∧
      ∀ f, (added rs).Holds f ↔ ∃ r ∈ rs, ∃ x ∈ r.ends, x.Tells f := by
  refine ⟨same_of_holds (tidy_added rs) (tidy_added rs') fun f => ?_, holds_added rs⟩
  rw [holds_added, holds_added]
  exact exists_congr fun r => and_congr_left fun _ => h.mem_iff

/-- A call that is told before the two functions that call each other. -/
def mutualCalls : List Record :=
  [.reference (.function "f") ⟨lineAt 5, [⟨.function "g", lineAt 4⟩]⟩,
   .definition (.function "f") ⟨lineAt 1, some "doc", [⟨.function "g", lineAt 2⟩], none, none⟩,
   .definition (.function "g")
    ⟨lineAt 4, none, [⟨.function "f", lineAt 5⟩, ⟨.function "h", lineAt 6⟩], none, none⟩]

/-- The other way round the symbols come in another order. -/
theorem added_perm_mutualCalls :
    mutualCalls.Perm mutualCalls.reverse ∧
      (added mutualCalls).cards.keys ≠ (added mutualCalls.reverse).cards.keys ∧
      (added mutualCalls).snapshot.stripped.Same (added mutualCalls.reverse).snapshot.stripped ∧
      (added mutualCalls).Holds (.caller ⟨.function "f", lineAt 5⟩ ⟨.function "g", lineAt 4⟩) := by
  have hperm : mutualCalls.Perm mutualCalls.reverse := mutualCalls.reverse_perm.symm
  obtain ⟨hsame, hholds⟩ := added_perm hperm
  refine ⟨hperm, by decide +kernel, hsame, (hholds _).2 ?_⟩
  exact ⟨_, .head _, _, .head _, .inr (.inr ⟨_, .head _, rfl⟩)⟩

end Linked

end CallAtlas
