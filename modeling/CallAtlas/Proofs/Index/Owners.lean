import CallAtlas.Proofs.Index.Additions
import CallAtlas.Proofs.Index.Runs
import Mathlib.Data.List.Induction

/-! # Owners of places

A linked index finds a definition by the owner that is noted for its place. After every run an
owner is defined at its place (`Linked.Owned`), so a search is answered at once (`find_of_owned`).
The converse does not hold: when a symbol is forgotten or replaced, its places lose their owners,
though another symbol may be defined there too. `Moves notes forgets` tells what a step does to the
table of owners.

* `find_run_iff`: a definition is found iff one is there and its place is not `Lost`, that is, no
  step has forgotten the place without it being noted since. -/

namespace CallAtlas

namespace Linked

variable {ix ix' ix'' : Linked}

/-- Some symbol is defined at a place. -/
def Defines (ix : Linked) (l : Location) : Prop := ∃ s, ix.Holds (.definition ⟨s, l⟩)

/-- Whatever is noted as the owner of a place is defined there. -/
def Owned (ix : Linked) : Prop :=
  ∀ l s, ix.owners.get? l = some s → ix.Holds (.definition ⟨s, l⟩)

/-- What a step does to the owners: it notes some places after it has forgotten some. -/
structure Moves (notes forgets : Location → Prop) (ix ix' : Linked) : Prop where
  owned : ix'.Owned
  owner_iff : ∀ l, l ∈ ix'.owners.keys ↔ notes l ∨ l ∈ ix.owners.keys ∧ ¬ forgets l
  kept : ∀ l, ix.Defines l → ¬ forgets l → ix'.Defines l
  new : ∀ l, ix'.Defines l → notes l ∨ ix.Defines l

theorem Owned.defines (h : ix.Owned) {l : Location} (hl : l ∈ ix.owners.keys) : ix.Defines l := by
  obtain ⟨s, hs⟩ := OrderedMap.mem_keys_iff.1 hl
  exact ⟨s, h l s hs⟩

theorem mem_keys_definitions {s : Symbol} {c : Card} (hc : ix.cards.get? s = some c)
    (l : Location) : l ∈ c.definitions.keys ↔ ix.Holds (.definition ⟨s, l⟩) := by
  rw [OrderedMap.mem_keys_iff]
  simp only [Holds, definitionAt?, hc, Option.bind_some]

/-! ## Additions -/

/-- The place whose owner a record tells. -/
def Record.Owns : Record → Location → Prop
  | .definition _ d, l => d.location = l
  | .reference .., _ => False

theorem Moves.refl (h : ix.Owned) : Moves (fun _ => False) (fun _ => False) ix ix :=
  ⟨h, fun l => by simp, fun _ hd _ => hd, fun _ hd => .inr hd⟩

/-- A step that forgets nothing, after another. -/
theorem Moves.trans {n n' f : Location → Prop} (h : Moves n f ix ix')
    (h' : Moves n' (fun _ => False) ix' ix'') : Moves (fun l => n l ∨ n' l) f ix ix'' := by
  refine ⟨h'.owned, fun l => ?_, fun l hd hf => ?_, fun l hd => ?_⟩
  · rw [h'.owner_iff, h.owner_iff, not_false_iff, and_true, or_assoc, or_left_comm]
  · exact h'.kept l (h.kept l hd hf) not_false
  · rcases h'.new l hd with hn | hd
    · exact .inl (.inr hn)
    · exact (h.new l hd).imp_left .inl

theorem moves_put (h : ix.Owned) (r : Record) :
    Moves r.Owns (fun _ => False) ix (r.put ix) := by
  have hmono : ∀ f, ix.Holds f → (r.put ix).Holds f := fun f hf => (holds_put r f).2 (.inl hf)
  have hkept : ∀ l, ix.Defines l → (r.put ix).Defines l := fun l ⟨s, hs⟩ => ⟨s, hmono _ hs⟩
  cases r with
  | definition s d =>
    have hself : (Record.put ix (.definition s d)).Holds (.definition ⟨s, d.location⟩) :=
      (holds_put _ _).2 (.inr (.inr (.inl rfl)))
    refine ⟨fun l t ht => ?_, fun l => ?_, fun l hd _ => hkept l hd, fun l hd => ?_⟩
    · rw [Record.put, own, OrderedMap.get?_insert] at ht
      split at ht
      · next hl =>
        obtain rfl := hl
        obtain rfl := Option.some.inj ht
        exact hself
      · exact hmono _ (h l t ht)
    · rw [Record.put, own, OrderedMap.mem_keys_insert, not_false_iff, and_true, or_comm,
        Record.Owns, eq_comm]
      rfl
    · obtain ⟨t, ht⟩ := hd
      rcases (holds_put _ _).1 ht with ht | ht | ht | ⟨_, _, ht⟩
      · exact .inr ⟨t, ht⟩
      · cases ht
      · cases ht
        exact .inl rfl
      · cases ht
  | reference s r =>
    refine ⟨fun l t ht => hmono _ (h l t ht), fun l => ?_, fun l hd _ => hkept l hd,
      fun l hd => ?_⟩
    · rw [Record.Owns, false_or, not_false_iff, and_true]
      rfl
    · obtain ⟨t, ht⟩ := hd
      rcases (holds_put _ _).1 ht with ht | ht | ht | ⟨_, _, ht⟩
      · exact .inr ⟨t, ht⟩
      all_goals cases ht

theorem moves_foldl_put (h : ix.Owned) (rs : List Record) :
    Moves (fun l => ∃ r ∈ rs, r.Owns l) (fun _ => False) ix (rs.foldl Record.put ix) := by
  induction rs generalizing ix with
  | nil => simpa using Moves.refl h
  | cons r rs ih =>
    have hr := moves_put h r
    simpa only [List.exists_mem_cons_iff, List.foldl_cons] using hr.trans (ih hr.owned)

theorem moves_addDefinition (h : ix.Owned) (s : Symbol) (d : Definition) :
    Moves (d.location = ·) (fun _ => False) ix (ix.addDefinition s d) := by
  have hends := moves_foldl_put h (Record.definition s d).ends
  rw [← Record.add_eq] at hends
  simpa [Record.ends, Record.Owns, Record.add] using hends

theorem moves_addReference (h : ix.Owned) (s : Symbol) (r : Reference) :
    Moves (fun l => ∃ c ∈ r.callers, c.location = l) (fun _ => False) ix
      (ix.addReference s r) := by
  have hends := moves_foldl_put h (Record.reference s r).ends
  rw [← Record.add_eq] at hends
  simpa [Record.ends, Record.Owns, Record.add, Definition.addCall, Definition.bare] using hends

/-! ## Replacing and forgetting -/

theorem definitionAt?_drop (ix : Linked) (s t : Symbol) (l : Location) :
    (ix.drop s).definitionAt? t l = if s = t then none else ix.definitionAt? t l := by
  unfold drop
  split
  · next hs =>
    split
    · next hst =>
      obtain rfl := hst
      rw [definitionAt?, hs]
      rfl
    · rfl
  · rw [definitionAt?, OrderedMap.get?_erase]
    split <;> rfl

theorem get?_owners_drop (ix : Linked) (s : Symbol) (l : Location) :
    (ix.drop s).owners.get? l =
      if (ix.definitionAt? s l).isSome then none else ix.owners.get? l := by
  unfold drop
  split
  · next hs => simp [definitionAt?, hs]
  · next c hc =>
    have hmem : l ∈ c.definitions.keys ↔ (ix.definitionAt? s l).isSome := by
      rw [mem_keys_definitions hc, Option.isSome_iff_exists]
      rfl
    rw [OrderedMap.get?_foldl_erase]
    simp only [hmem]

/-- Of another symbol nothing is forgotten. -/
theorem holds_drop {s t : Symbol} {l : Location} : (ix.drop s).Holds (.definition ⟨t, l⟩) ↔
    s ≠ t ∧ ix.Holds (.definition ⟨t, l⟩) := by
  simp only [Holds, definitionAt?_drop]
  by_cases hst : s = t <;> simp [hst]

theorem moves_drop (h : ix.Owned) (s : Symbol) :
    Moves (fun _ => False) (fun l => ix.Holds (.definition ⟨s, l⟩)) ix (ix.drop s) := by
  have hsome : ∀ l, (ix.definitionAt? s l).isSome ↔ ix.Holds (.definition ⟨s, l⟩) := fun l =>
    Option.isSome_iff_exists
  refine ⟨fun l t ht => ?_, fun l => ?_, fun l hd hf => ?_, fun l hd => ?_⟩
  · rw [get?_owners_drop] at ht
    split at ht
    · cases ht
    · next hs =>
      have hdef := h l t ht
      refine holds_drop.2 ⟨fun hst => hs ?_, hdef⟩
      rw [hsome, hst]
      exact hdef
  · rw [OrderedMap.mem_keys_iff, OrderedMap.mem_keys_iff, get?_owners_drop, ← hsome, false_or]
    split <;> simp_all
  · obtain ⟨t, ht⟩ := hd
    exact ⟨t, holds_drop.2 ⟨fun hst => hf (hst ▸ ht), ht⟩⟩
  · obtain ⟨t, ht⟩ := hd
    exact .inr ⟨t, (holds_drop.1 ht).2⟩

theorem mem_keys_ofInfo {i : Info} {l : Location} :
    l ∈ (Card.ofInfo i).definitions.keys ↔ ∃ d ∈ i.definitions, d.location = l := by
  have hfold : (Card.ofInfo i).definitions =
      (i.definitions.map fun d => (d.location, d)).foldl (fun m e => m.insert e.1 e.2) .empty := by
    rw [List.foldl_map]
    rfl
  have hempty : l ∉ (OrderedMap.empty : OrderedMap Location Definition).keys := List.not_mem_nil
  rw [hfold, OrderedMap.mem_keys_foldl_insert, or_iff_right hempty]
  simp

theorem holds_set {s t : Symbol} {i : Info} {l : Location} :
    (ix.set s i).Holds (.definition ⟨t, l⟩) ↔
      (s = t ∧ ∃ d ∈ i.definitions, d.location = l) ∨ (ix.drop s).Holds (.definition ⟨t, l⟩) := by
  rw [holds_drop]
  by_cases hst : s = t
  · obtain rfl := hst
    have hcard : (ix.set s i).cards.get? s = some (Card.ofInfo i) := by
      rw [get?_cards_set, if_pos rfl]
    rw [← mem_keys_definitions hcard, mem_keys_ofInfo]
    simp
  · simp only [Holds, definitionAt?, get?_cards_set, hst, if_false, false_and, false_or, ne_eq,
      not_false_eq_true, true_and]

theorem moves_set (h : ix.Owned) (s : Symbol) (i : Info) :
    Moves (fun l => ∃ d ∈ i.definitions, d.location = l)
      (fun l => ix.Holds (.definition ⟨s, l⟩)) ix (ix.set s i) := by
  have hdrop := moves_drop h s
  have howners : ∀ l, (ix.set s i).owners.get? l =
      if l ∈ (Card.ofInfo i).definitions.keys then some s else (ix.drop s).owners.get? l :=
    fun l => OrderedMap.get?_foldl_insert_const _ _ _ _
  -- the symbol is forgotten first, and then its new places are noted
  have hput : Moves (fun l => ∃ d ∈ i.definitions, d.location = l) (fun _ => False)
      (ix.drop s) (ix.set s i) := by
    refine ⟨fun l t ht => ?_, fun l => ?_, fun l hd _ => ?_, fun l hd => ?_⟩
    · rw [howners] at ht
      split at ht
      · next hl => exact holds_set.2 (.inl ⟨Option.some.inj ht, mem_keys_ofInfo.1 hl⟩)
      · exact holds_set.2 (.inr (hdrop.owned l t ht))
    · rw [OrderedMap.mem_keys_iff, OrderedMap.mem_keys_iff, howners, ← mem_keys_ofInfo]
      split <;> simp_all
    · obtain ⟨t, ht⟩ := hd
      exact ⟨t, holds_set.2 (.inr ht)⟩
    · obtain ⟨t, ht⟩ := hd
      rcases holds_set.1 ht with ⟨-, hnew⟩ | hold
      · exact .inl hnew
      · exact .inr ⟨t, hold⟩
  simpa using hdrop.trans hput

/-! ## Owners read off the cards -/

theorem get?_ownersOf {cards : OrderedMap Symbol Card} {l : Location} {s : Symbol}
    (h : (ownersOf cards).get? l = some s) :
    ∃ c, cards.get? s = some c ∧ l ∈ c.definitions.keys := by
  have hfold : ∀ (es : List (Symbol × Card)) (m : OrderedMap Location Symbol),
      (es.foldl (fun m e => e.2.definitions.keys.foldl (fun m l => m.insert l e.1) m) m).get? l =
        some s → (∃ e ∈ es, e.1 = s ∧ l ∈ e.2.definitions.keys) ∨ m.get? l = some s := by
    intro es
    induction es with
    | nil => exact fun _ hm => .inr hm
    | cons e es ih =>
      intro m hm
      rcases ih _ hm with ⟨e', he', hs⟩ | hm
      · exact .inl ⟨e', .tail _ he', hs⟩
      · rw [OrderedMap.get?_foldl_insert_const] at hm
        split at hm
        · next hl => exact .inl ⟨e, .head _, Option.some.inj hm, hl⟩
        · exact .inr hm
  rcases hfold cards.entries .empty h with ⟨⟨t, c⟩, he, rfl, hl⟩ | hm
  · exact ⟨c, OrderedMap.get?_eq_some_iff.2 he, hl⟩
  · cases hm

theorem mem_keys_ownersOf {cards : OrderedMap Symbol Card} {l : Location} {s : Symbol} {c : Card}
    (hc : cards.get? s = some c) (hl : l ∈ c.definitions.keys) :
    l ∈ (ownersOf cards).keys := by
  have hfold : ∀ (es : List (Symbol × Card)) (m : OrderedMap Location Symbol),
      (∃ e ∈ es, l ∈ e.2.definitions.keys) ∨ l ∈ m.keys → l ∈ (es.foldl (fun m e =>
        e.2.definitions.keys.foldl (fun m l => m.insert l e.1) m) m).keys := by
    intro es
    induction es with
    | nil => simp
    | cons e es ih =>
      intro m hm
      refine ih _ ?_
      rw [List.exists_mem_cons_iff, or_assoc, or_left_comm] at hm
      refine hm.imp_right fun hm => ?_
      rw [OrderedMap.mem_keys_iff, OrderedMap.get?_foldl_insert_const]
      split
      · exact ⟨e.1, rfl⟩
      · next hl => exact OrderedMap.mem_keys_iff.1 (hm.resolve_left hl)
  exact hfold _ _ (.inl ⟨(s, c), OrderedMap.get?_eq_some_iff.1 hc, hl⟩)

theorem owned_reown (ix : Linked) : ix.reown.Owned := by
  intro l s hs
  obtain ⟨c, hc, hl⟩ := get?_ownersOf hs
  exact (mem_keys_definitions hc l).1 hl

/-- Reading the owners off the cards settles every place. -/
theorem moves_reown (ix ix' : Linked) :
    Moves ix'.Defines (fun l => ¬ ix'.Defines l) ix ix'.reown := by
  have howned := owned_reown ix'
  refine ⟨howned, fun l => ?_, fun l _ hf => not_not.1 hf, fun l hd => .inl hd⟩
  constructor
  · exact fun hl => .inl (howned.defines hl)
  · intro hd
    obtain ⟨s, hs⟩ : ix'.Defines l := hd.elim id fun hd => not_not.1 hd.2
    obtain ⟨d, hd⟩ := hs
    obtain ⟨c, hc, -⟩ := Option.bind_eq_some_iff.1 hd
    exact mem_keys_ownersOf hc ((mem_keys_definitions hc l).2 ⟨d, hd⟩)

/-! ## Searches -/

/-- Where owners are defined at their places, a search changes nothing and tells the owner. -/
theorem find_of_owned (h : ix.Owned) (l : Location) : ix.find l =
    (ix, (ix.owners.get? l).bind fun s => (ix.definitionAt? s l).map fun d => (s, d)) := by
  unfold find
  cases hs : ix.owners.get? l with
  | none => rfl
  | some s =>
    obtain ⟨d, hd⟩ := h l s hs
    simp [hd]

theorem moves_setSource (h : ix.Owned) (s : Symbol) (l : Location) (text : Text) :
    Moves (fun _ => False) (fun _ => False) ix (ix.setSource s l text) := by
  have hsame : ∀ t k, (ix.setSource s l text).Holds (.definition ⟨t, k⟩) ↔
      ix.Holds (.definition ⟨t, k⟩) := by
    intro t k
    simp only [Holds, definitionAt?_setSource]
    split
    · simp
    · exact .rfl
  have howners : (ix.setSource s l text).owners = ix.owners := by
    unfold setSource
    split <;> rfl
  refine ⟨fun k t ht => ?_, fun k => ?_, fun k hd _ => ?_, fun k hd => .inr ?_⟩
  · rw [howners] at ht
    exact (hsame t k).2 (h k t ht)
  · simp [howners]
  · exact hd.imp fun t ht => (hsame t k).2 ht
  · exact hd.imp fun t ht => (hsame t k).1 ht

end Linked

/-! ## Runs -/

namespace Index

/-- A symbol has a definition at a place. -/
def HasAt (ix : Index) (s : Symbol) (l : Location) : Prop := ∃ d ∈ ix.definitions s, d.location = l

/-- The same contents as a listed index, which is searched from its start to its end. -/
def asListed : Index → Listed
  | .listed ix => ix
  | .linked ix => ⟨ix.cards.mapValues fun _ c => c.toInfo⟩

/-- The places for which a step notes an owner. -/
def Step.Notes (ix : Index) (l : Location) : Step → Prop
  | .addDefinition _ d => d.location = l
  | .addReference _ r => ∃ c ∈ r.callers, c.location = l
  | .set _ i => ∃ d ∈ i.definitions, d.location = l
  | .update more => ∃ s, (Step.apply ix (.update more)).HasAt s l
  | .load data => ∃ s, (Step.apply ix (.load data)).HasAt s l
  | .reload => ∃ s, (Step.apply ix .reload).HasAt s l
  | .setForeign _ | .delete _ | .find _ | .setSource .. => False

/-- The places whose owners a step takes away, before it notes any: those of a symbol that is
replaced or forgotten. Where all owners are read off the cards, they are those without
definition. -/
def Step.Forgets (ix : Index) (l : Location) : Step → Prop
  | .set s _ | .setForeign s | .delete s => ix.HasAt s l
  | .update more => ¬ ∃ s, (Step.apply ix (.update more)).HasAt s l
  | .load data => ¬ ∃ s, (Step.apply ix (.load data)).HasAt s l
  | .reload => ¬ ∃ s, (Step.apply ix .reload).HasAt s l
  | .addDefinition .. | .addReference .. | .find _ | .setSource .. => False

/-- A run takes a step as its `i`-th one, from an index. -/
def Takes (steps : List Step) (i : Nat) (step : Step) (ix : Index) : Prop :=
  steps[i]? = some step ∧ run .linked (steps.take i) = ix

/-- Some step of a run has forgotten a place, and neither it nor a later one notes an owner. -/
def Lost (steps : List Step) (l : Location) : Prop :=
  ∃ i step ix, Takes steps i step ix ∧ step.Forgets ix l ∧
    ∀ j later ix', i ≤ j → Takes steps j later ix' → ¬ later.Notes ix' l

theorem mem_definitions_linked {ix : Linked} {s : Symbol} {d : Definition} :
    d ∈ (Index.linked ix).definitions s ↔ ∃ l, ix.definitionAt? s l = some d := by
  simp only [definitions, Linked.definitions, Linked.info?, Linked.definitionAt?]
  cases ix.cards.get? s with
  | none => simp
  | some c =>
    simp only [Option.map_some, Option.getD_some, Card.toInfo, OrderedMap.values, List.mem_map,
      Option.bind_some, OrderedMap.get?_eq_some_iff]
    constructor
    · rintro ⟨e, he, rfl⟩
      exact ⟨e.1, he⟩
    · rintro ⟨l, hl⟩
      exact ⟨(l, d), hl, rfl⟩

theorem hasAt_linked {ix : Linked} (h : ix.Keyed) {s : Symbol} {l : Location} :
    (Index.linked ix).HasAt s l ↔ ix.Holds (.definition ⟨s, l⟩) := by
  constructor
  · rintro ⟨d, hd, rfl⟩
    obtain ⟨l, hl⟩ := mem_definitions_linked.1 hd
    exact ⟨d, h.definition s l d hl ▸ hl⟩
  · rintro ⟨d, hd⟩
    exact ⟨d, mem_definitions_linked.2 ⟨l, hd⟩, h.definition s l d hd⟩

theorem moves_apply {ix : Linked} (hk : ix.Keyed) (h : ix.Owned) (step : Step) :
    ∃ ix', step.apply (.linked ix) = .linked ix' ∧
      Linked.Moves (fun l => step.Notes (.linked ix) l) (fun l => step.Forgets (.linked ix) l)
        ix ix' := by
  -- a step that reads the owners off its cards settles all places
  have hreown : ∀ ix' : Linked, ix'.Keyed → Linked.Moves
      (fun l => ∃ s, (Index.linked ix'.reown).HasAt s l)
      (fun l => ¬ ∃ s, (Index.linked ix'.reown).HasAt s l) ix ix'.reown := by
    intro ix' hk'
    have hdefines : ∀ l, (∃ s, (Index.linked ix'.reown).HasAt s l) ↔ ix'.Defines l := fun l =>
      exists_congr fun s => hasAt_linked (Linked.Keyed.of_cards hk' rfl)
    simpa only [hdefines] using Linked.moves_reown ix ix'
  have hdrop : ∀ s, Linked.Moves (fun _ => False) (fun l => (Index.linked ix).HasAt s l) ix
      (ix.drop s) := by
    intro s
    simpa only [hasAt_linked hk] using Linked.moves_drop h s
  have hindex : (Index.linked ix).Keyed := hk
  have hkeyed := Keyed.apply hindex step
  cases step with
  | addDefinition s d => exact ⟨_, rfl, Linked.moves_addDefinition h s d⟩
  | addReference s r => exact ⟨_, rfl, Linked.moves_addReference h s r⟩
  | set s i =>
    refine ⟨_, rfl, ?_⟩
    simpa only [Step.Notes, Step.Forgets, hasAt_linked hk] using Linked.moves_set h s i
  | setForeign s => exact ⟨_, rfl, hdrop s⟩
  | delete s =>
    by_cases hs : ix.cards.contains s
    · refine ⟨ix.drop s, ?_, hdrop s⟩
      simp [Step.apply, delete, Linked.delete, hs, Except.map, Except.toOption]
    · refine ⟨ix, ?_, ?_⟩
      · simp [Step.apply, delete, Linked.delete, hs, Except.map, Except.toOption]
      · have hnone : ∀ l, ¬ (Index.linked ix).HasAt s l := by
          rintro l ⟨d, hd, -⟩
          obtain ⟨k, hk⟩ := mem_definitions_linked.1 hd
          obtain ⟨c, hc, -⟩ := Option.bind_eq_some_iff.1 hk
          exact hs (by rw [OrderedMap.contains, hc]; rfl)
        simpa only [Step.Notes, Step.Forgets, hnone] using Linked.Moves.refl h
  | update more => exact ⟨_, rfl, hreown _ (Linked.Keyed.of_cards hkeyed rfl)⟩
  | load data => exact ⟨_, rfl, hreown _ (Linked.Keyed.of_cards hkeyed rfl)⟩
  | find l =>
    refine ⟨ix, ?_, Linked.Moves.refl h⟩
    simp [Step.apply, find, Linked.find_of_owned h]
  | setSource s l text => exact ⟨_, rfl, Linked.moves_setSource h s l text⟩
  | reload => exact ⟨_, rfl, hreown _ (Linked.Keyed.of_cards hkeyed rfl)⟩

theorem run_concat (kind : IndexKind) (steps : List Step) (step : Step) :
    run kind (steps ++ [step]) = step.apply (run kind steps) := by
  rw [run, List.foldl_append]
  rfl

theorem takes_concat {steps : List Step} {step x : Step} {i : Nat} {ix : Index} :
    Takes (steps ++ [step]) i x ix ↔
      Takes steps i x ix ∨ i = steps.length ∧ x = step ∧ run .linked steps = ix := by
  rcases Nat.lt_trichotomy i steps.length with hi | rfl | hi
  · rw [Takes, List.getElem?_append_left hi, List.take_append_of_le_length (Nat.le_of_lt hi)]
    exact ⟨.inl, fun h => h.resolve_right fun h => Nat.ne_of_lt hi h.1⟩
  · simp [Takes, eq_comm]
  · have hnone : steps[i]? = none := List.getElem?_eq_none (Nat.le_of_lt hi)
    have hnone' : (steps ++ [step])[i]? = none :=
      List.getElem?_eq_none (by rw [List.length_append]; exact hi)
    simp [Takes, hnone, hnone', Nat.ne_of_gt hi]

theorem Takes.lt {steps : List Step} {i : Nat} {step : Step} {ix : Index}
    (h : Takes steps i step ix) : i < steps.length :=
  (List.getElem?_eq_some_iff.1 h.1).1

theorem lost_concat (steps : List Step) (step : Step) (l : Location) :
    Lost (steps ++ [step]) l ↔ ¬ step.Notes (run .linked steps) l ∧
      (step.Forgets (run .linked steps) l ∨ Lost steps l) := by
  have hlast : Takes (steps ++ [step]) steps.length step (run .linked steps) :=
    takes_concat.2 (.inr ⟨rfl, rfl, rfl⟩)
  constructor
  · rintro ⟨i, x, ix, hx, hforgets, hnotes⟩
    rcases takes_concat.1 hx with hx | ⟨rfl, rfl, rfl⟩
    · refine ⟨hnotes _ _ _ (Nat.le_of_lt hx.lt) hlast, .inr ⟨i, x, ix, hx, hforgets, ?_⟩⟩
      exact fun j later ix' hij hj => hnotes j later ix' hij (takes_concat.2 (.inl hj))
    · exact ⟨hnotes _ _ _ (Nat.le_refl _) hlast, .inl hforgets⟩
  · rintro ⟨hnot, hforgets | ⟨i, x, ix, hx, hforgets, hnotes⟩⟩
    · refine ⟨_, _, _, hlast, hforgets, fun j later ix' hij hj => ?_⟩
      rcases takes_concat.1 hj with hj | ⟨rfl, rfl, rfl⟩
      · exact absurd hj.lt (Nat.not_lt.2 hij)
      · exact hnot
    · refine ⟨i, x, ix, takes_concat.2 (.inl hx), hforgets, fun j later ix' hij hj => ?_⟩
      rcases takes_concat.1 hj with hj | ⟨rfl, rfl, rfl⟩
      · exact hnotes j later ix' hij hj
      · exact hnot

/-- After a run, owners are defined at their places, and a place has one iff something is defined
there and the place is not lost. -/
theorem owners_run (steps : List Step) :
    ∃ ix, run .linked steps = .linked ix ∧ ix.Owned ∧
      ∀ l, l ∈ ix.owners.keys ↔ ix.Defines l ∧ ¬ Lost steps l := by
  induction steps using List.reverseRecOn with
  | nil =>
    refine ⟨.empty, rfl, fun l s hs => (nomatch hs), fun l => ?_⟩
    have hempty : ¬ Linked.empty.Defines l := fun ⟨s, hs⟩ => Linked.not_holds_empty _ hs
    exact ⟨fun hl => (nomatch hl), fun hd => absurd hd.1 hempty⟩
  | append_singleton steps step ih =>
    obtain ⟨ix, hrun, howned, hiff⟩ := ih
    have hkeyed := run_keyed .linked steps
    rw [hrun] at hkeyed
    obtain ⟨ix', happly, hmoves⟩ := moves_apply hkeyed howned step
    refine ⟨ix', by rw [run_concat, hrun, happly], hmoves.owned, fun l => ?_⟩
    -- a place that is noted is defined, one that is kept stays so, and none appears unnoted
    have hnoted : step.Notes (.linked ix) l → ix'.Defines l := fun hn =>
      hmoves.owned.defines ((hmoves.owner_iff l).2 (.inl hn))
    have hkept := hmoves.kept l
    have hnew := hmoves.new l
    rw [lost_concat, hrun, hmoves.owner_iff, hiff]
    tauto

/-- The search through all definitions finds one wherever there is one. -/
theorem find?_asListed {ix : Linked} (h : ix.Keyed) (l : Location) :
    ((Index.linked ix).asListed.find? l).isSome ↔ ix.Defines l := by
  rw [Listed.find?, List.findSome?_isSome_iff]
  constructor
  · rintro ⟨e, he, hfound⟩
    obtain ⟨⟨s, c⟩, hc, rfl⟩ := List.mem_map.1 he
    rw [Option.isSome_map, List.find?_isSome] at hfound
    obtain ⟨d, hd, hl⟩ := hfound
    obtain ⟨⟨k, d'⟩, hk, rfl⟩ := List.mem_map.1 hd
    have hat : ix.definitionAt? s k = some d' := by
      rw [Linked.definitionAt?, OrderedMap.get?_eq_some_iff.2 hc]
      exact OrderedMap.get?_eq_some_iff.2 hk
    obtain rfl : k = l := (h.definition s k d' hat).symm.trans (of_decide_eq_true hl)
    exact ⟨s, d', hat⟩
  · rintro ⟨s, d, hd⟩
    obtain ⟨c, hc, hdc⟩ := Option.bind_eq_some_iff.1 hd
    refine ⟨(s, c.toInfo), List.mem_map.2 ⟨(s, c), OrderedMap.get?_eq_some_iff.1 hc, rfl⟩, ?_⟩
    rw [Option.isSome_map, List.find?_isSome]
    refine ⟨d, List.mem_map.2 ⟨(l, d), OrderedMap.get?_eq_some_iff.1 hdc, rfl⟩, ?_⟩
    exact decide_eq_true (h.definition s l d hd)

/-- After every `run`, what `find` finds at a place is defined there. The search through all
definitions (`asListed`) finds something iff some symbol is defined there (`HasAt`), and `find` does
iff moreover the place is not `Lost`. -/
theorem find_run_iff (steps : List Step) (l : Location) :
    (∀ s d, ((run .linked steps).find l).2 = some (s, d) →
      d ∈ (run .linked steps).definitions s ∧ d.location = l) ∧
    (((run .linked steps).asListed.find? l).isSome ↔ ∃ s, (run .linked steps).HasAt s l) ∧
    (((run .linked steps).find l).2.isSome ↔
      (∃ s, (run .linked steps).HasAt s l) ∧ ¬ Lost steps l) := by
  obtain ⟨ix, hrun, howned, hiff⟩ := owners_run steps
  have hkeyed := run_keyed .linked steps
  rw [hrun] at hkeyed ⊢
  have hkeyed : ix.Keyed := hkeyed
  have hdefines : (∃ s, (Index.linked ix).HasAt s l) ↔ ix.Defines l :=
    exists_congr fun s => hasAt_linked hkeyed
  have hfind : ((Index.linked ix).find l).2 =
      (ix.owners.get? l).bind fun s => (ix.definitionAt? s l).map fun d => (s, d) := by
    simp [find, Linked.find_of_owned howned]
  refine ⟨fun s d hd => ?_, ?_, ?_⟩
  · rw [hfind] at hd
    obtain ⟨t, -, ht⟩ := Option.bind_eq_some_iff.1 hd
    obtain ⟨e, he, heq⟩ := Option.map_eq_some_iff.1 ht
    cases heq
    exact ⟨mem_definitions_linked.2 ⟨l, he⟩, hkeyed.definition s l d he⟩
  · rw [hdefines, find?_asListed hkeyed]
  · rw [hdefines, ← hiff, OrderedMap.mem_keys_iff, hfind]
    cases hs : ix.owners.get? l with
    | none => simp
    | some s =>
      obtain ⟨d, hd⟩ := howned l s hs
      simp [hd]

/-- A function and a method are defined at one place, and the method is forgotten. -/
def sharedPlace : List Step :=
  [.addDefinition (.function "foo") (.bare (Linked.lineAt 1)),
   .addDefinition (.method "foo" (some "A")) (.bare (Linked.lineAt 1)),
   .delete (.method "foo" (some "A"))]

/-- The function is still defined at the place and is no longer found there. -/
theorem find_run_iff_sharedPlace :
    ((run .linked sharedPlace).find (Linked.lineAt 1)).2 = none ∧
      (run .linked sharedPlace).HasAt (.function "foo") (Linked.lineAt 1) ∧
      Lost sharedPlace (Linked.lineAt 1) := by
  have hnone : ((run .linked sharedPlace).find (Linked.lineAt 1)).2 = none := by decide +kernel
  have hhas : (run .linked sharedPlace).HasAt (.function "foo") (Linked.lineAt 1) :=
    ⟨.bare (Linked.lineAt 1), by decide +kernel, rfl⟩
  obtain ⟨-, -, hiff⟩ := find_run_iff sharedPlace (Linked.lineAt 1)
  refine ⟨hnone, hhas, ?_⟩
  by_contra hlost
  have hsome := hiff.2 ⟨⟨_, hhas⟩, hlost⟩
  rw [hnone] at hsome
  cases hsome

end Index

end CallAtlas
