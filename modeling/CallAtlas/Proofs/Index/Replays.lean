import CallAtlas.Proofs.Index.Additions

/-! # Additions made again

A record that an index knows (`Record.Known`) changes no card when it is put there once more
(`cards_put_of_known`). A record without a note is known as soon as it has been put, and stays so
whatever is put afterwards, notes included (`known_put`). So additions that carry no notes change
nothing when all of them are made again:

* `cards_again`: not on the cards, even if notes have come in between, and
* `again`: not in the table of owners either, if nothing has. -/

namespace CallAtlas

namespace Linked

variable {ix : Linked}

/-! ## Known records -/

/-- All that a record tells is known at its place, a doc at least in another wording. -/
def Record.Known (ix : Linked) : Record → Prop
  | .definition s d => ∃ old, ix.definitionAt? s d.location = some old ∧
      (d.doc.isSome → old.doc.isSome) ∧ (∀ c ∈ d.calls, c ∈ old.calls) ∧ d.note = none
  | .reference s r => ∃ old, ix.referenceAt? s r.location = some old ∧
      ∀ c ∈ r.callers, c ∈ old.callers

theorem absorb_of_known {d old : Definition} (hdoc : d.doc.isSome → old.doc.isSome)
    (hcalls : ∀ c ∈ d.calls, c ∈ old.calls) (hnote : d.note = none) : old.absorb d = old := by
  have hor : old.doc.or d.doc = old.doc := by
    cases hd : d.doc with
    | none => exact Option.or_none
    | some text => exact Option.or_of_isSome (hdoc (by rw [hd]; rfl))
  rw [Definition.absorb, hor, addAllIfAbsent_of_subset hcalls, hnote]
  rfl

theorem cards_onCard_of_fixed {s : Symbol} {c : Card} {f : Card → Card}
    (hc : ix.cards.get? s = some c) (hf : f c = c) : (ix.onCard s f).cards = ix.cards := by
  rw [onCard, OrderedMap.modify, hc, Option.getD_some, hf]
  exact OrderedMap.insert_of_get? hc

/-- A record that is known changes no card. -/
theorem cards_put_of_known {r : Record} (h : r.Known ix) : (r.put ix).cards = ix.cards := by
  cases r with
  | definition s d =>
    obtain ⟨old, hold, hdoc, hcalls, hnote⟩ := h
    obtain ⟨c, hc, hd⟩ := Option.bind_eq_some_iff.1 hold
    have hfixed : c.addDefinition d = c := by
      rw [Card.addDefinition, OrderedMap.modify, hd, Option.getD_some,
        absorb_of_known hdoc hcalls hnote, OrderedMap.insert_of_get? hd]
    exact cards_onCard_of_fixed (f := (·.addDefinition d)) hc hfixed
  | reference s r =>
    obtain ⟨old, hold, hcallers⟩ := h
    obtain ⟨c, hc, hr⟩ := Option.bind_eq_some_iff.1 hold
    have habsorb : old.absorb r = old := by
      rw [Reference.absorb, addAllIfAbsent_of_subset hcallers]
    have hfixed : c.addReference r = c := by
      rw [Card.addReference, OrderedMap.modify, hr, Option.getD_some, habsorb,
        OrderedMap.insert_of_get? hr]
    exact cards_onCard_of_fixed (f := (·.addReference r)) hc hfixed

/-- What is known stays known. -/
theorem known_put {r : Record} (h : r.Known ix) (x : Record) : r.Known (x.put ix) := by
  cases r with
  | definition s d =>
    obtain ⟨old, hold, hdoc, hcalls, hnote⟩ := h
    cases x with
    | definition t e =>
      simp only [Record.Known, Record.put, definitionAt?_own, definitionAt?_onCard_addDefinition]
      split
      · refine ⟨_, rfl, fun hd => ?_, fun c hc => ?_, hnote⟩
        · simp [hold, Definition.absorb, hdoc hd]
        · rw [hold]
          exact mem_addAllIfAbsent.2 (.inl (hcalls c hc))
      · exact ⟨old, hold, hdoc, hcalls, hnote⟩
    | reference t e =>
      refine ⟨old, ?_, hdoc, hcalls, hnote⟩
      rw [← hold]
      exact definitionAt?_onCard_addReference ix t s d.location e
  | reference s r =>
    obtain ⟨old, hold, hcallers⟩ := h
    cases x with
    | definition t e =>
      refine ⟨old, ?_, hcallers⟩
      rw [← hold]
      exact referenceAt?_onCard_addDefinition ix t s r.location e
    | reference t e =>
      simp only [Record.Known, Record.put, referenceAt?_onCard_addReference]
      split
      · refine ⟨_, rfl, fun c hc => ?_⟩
        rw [hold]
        exact mem_addAllIfAbsent.2 (.inl (hcallers c hc))
      · exact ⟨old, hold, hcallers⟩

theorem known_foldl_put {r : Record} (h : r.Known ix) (xs : List Record) :
    r.Known (xs.foldl Record.put ix) := by
  induction xs generalizing ix with
  | nil => exact h
  | cons x xs ih => exact ih (known_put h x)

/-! ## Silent records -/

/-- A record that carries no note. -/
def Record.Silent : Record → Prop
  | .definition _ d => d.note = none
  | .reference .. => True

theorem known_put_self {r : Record} (h : r.Silent) (ix : Linked) : r.Known (r.put ix) := by
  cases r with
  | definition s d =>
    simp only [Record.Known, Record.put, definitionAt?_own, definitionAt?_onCard_addDefinition,
      and_self, if_true]
    refine ⟨_, rfl, fun hd => ?_, fun c hc => mem_addAllIfAbsent.2 (.inr hc), h⟩
    simp [Definition.absorb, hd]
  | reference s r =>
    simp only [Record.Known, Record.put, referenceAt?_onCard_addReference, and_self, if_true]
    exact ⟨_, rfl, fun c hc => mem_addAllIfAbsent.2 (.inr hc)⟩

theorem known_of_mem {rs : List Record} (h : ∀ r ∈ rs, r.Silent) (ix : Linked) :
    ∀ r ∈ rs, r.Known (rs.foldl Record.put ix) := by
  induction rs generalizing ix with
  | nil => exact fun _ hr => (nomatch hr)
  | cons x rs ih =>
    intro r hr
    -- what is put behind the first record leaves it known
    rcases List.mem_cons.1 hr with rfl | hr
    · exact known_foldl_put (known_put_self (h r (.head _)) ix) rs
    · exact ih (fun r hr => h r (.tail _ hr)) (x.put ix) r hr

theorem cards_foldl_put_of_known {rs : List Record} (h : ∀ r ∈ rs, r.Known ix) :
    (rs.foldl Record.put ix).cards = ix.cards := by
  induction rs generalizing ix with
  | nil => rfl
  | cons x rs ih =>
    rw [List.foldl_cons, ih fun r hr => known_put (h r (.tail _ hr)) x]
    exact cards_put_of_known (h x (.head _))

theorem silent_of_mem_ends {r x : Record} (h : r.Silent) (hx : x ∈ r.ends) : x.Silent := by
  cases r with
  | definition s d =>
    rcases List.mem_cons.1 hx with rfl | hx
    · exact h
    · obtain ⟨c, -, rfl⟩ := List.mem_map.1 hx
      trivial
  | reference s r =>
    rcases List.mem_cons.1 hx with rfl | hx
    · trivial
    · obtain ⟨c, -, rfl⟩ := List.mem_map.1 hx
      rfl

/-- Additions without notes leave the cards as they are when they are made again, whatever has been
added since. -/
theorem cards_again {rs : List Record} (h : ∀ r ∈ rs, r.Silent) (ix : Linked) (xs : List Record) :
    (rs.foldl Record.add (xs.foldl Record.add (rs.foldl Record.add ix))).cards =
      (xs.foldl Record.add (rs.foldl Record.add ix)).cards := by
  have hsilent : ∀ x ∈ rs.flatMap Record.ends, x.Silent := fun x hx => by
    obtain ⟨r, hr, hx⟩ := List.mem_flatMap.1 hx
    exact silent_of_mem_ends (h r hr) hx
  simp only [Record.foldl_add_eq]
  exact cards_foldl_put_of_known fun r hr => known_foldl_put (known_of_mem hsilent ix r hr) _

/-! ## Owners -/

/-- The owners that records tell. -/
def ownings (rs : List Record) : List (Location × Symbol) :=
  rs.filterMap fun
    | .definition s d => some (d.location, s)
    | .reference .. => none

theorem owners_foldl_put (rs : List Record) (ix : Linked) : (rs.foldl Record.put ix).owners =
    (ownings rs).foldl (fun m e => m.insert e.1 e.2) ix.owners := by
  induction rs generalizing ix with
  | nil => rfl
  | cons r rs ih =>
    rw [List.foldl_cons, ih]
    cases r with
    | definition s d => rfl
    | reference s r => rfl

theorem ext_parts {ix ix' : Linked} (hcards : ix.cards = ix'.cards)
    (howners : ix.owners = ix'.owners) : ix = ix' := by
  cases ix
  cases ix'
  cases hcards
  cases howners
  rfl

/-- Additions without notes change nothing when they are made again at once. -/
theorem again {rs : List Record} (h : ∀ r ∈ rs, r.Silent) (ix : Linked) :
    rs.foldl Record.add (rs.foldl Record.add ix) = rs.foldl Record.add ix := by
  have hcards : (rs.foldl Record.add (rs.foldl Record.add ix)).cards =
      (rs.foldl Record.add ix).cards := cards_again h ix []
  have howners : (rs.foldl Record.add (rs.foldl Record.add ix)).owners =
      (rs.foldl Record.add ix).owners := by
    simp only [Record.foldl_add_eq, owners_foldl_put]
    exact OrderedMap.foldl_insert_again _ _
  exact ext_parts hcards howners

end Linked

end CallAtlas
