import CallAtlas.Proofs.Index.Places

/-! # Runs of an index

`Index.Step` are the operations on an index of either kind and `Index.run` the index after some of
them, a refused one leaving what it leaves. The records of a linked index stand at their own places
after every run (`run_keyed`), since every operation changes cards so that they stay `Card.Keyed`.

* `load_snapshot`: such an index and its snapshot, taken over into a new index of its kind, tell the
  same in the same order.
* `run_twoSided`: after a run of additions and reloads every call is recorded at both its ends. -/

namespace CallAtlas

/-! ## Cards -/

namespace Card

/-- Every record of a card stands at its own place. -/
def Keyed (c : Card) : Prop :=
  (∀ l d, c.definitions.get? l = some d → d.location = l) ∧
    ∀ l r, c.references.get? l = some r → r.location = l

theorem Keyed.empty : Card.empty.Keyed := ⟨fun _ _ h => (nomatch h), fun _ _ h => (nomatch h)⟩

theorem Keyed.insert {c : Card} (h : c.Keyed) {l : Location} {d : Definition}
    (hd : d.location = l) : Keyed { c with definitions := c.definitions.insert l d } := by
  refine ⟨fun k e he => ?_, h.2⟩
  rw [OrderedMap.get?_insert] at he
  split at he
  · next hk => rw [← Option.some.inj he, hd, hk]
  · exact h.1 k e he

theorem Keyed.addDefinition {c : Card} (h : c.Keyed) (d : Definition) :
    (c.addDefinition d).Keyed := by
  refine h.insert ?_
  cases hc : c.definitions.get? d.location with
  | none => rfl
  | some old => exact h.1 _ old hc

theorem Keyed.addReference {c : Card} (h : c.Keyed) (r : Reference) :
    (c.addReference r).Keyed := by
  refine ⟨h.1, fun l x hx => ?_⟩
  rw [references_addReference] at hx
  split at hx
  · rw [← Option.some.inj hx]
    cases hc : c.references.get? l with
    | none => rfl
    | some old => exact h.2 _ old hc
  · exact h.2 l x hx

theorem Keyed.absorb {c : Card} (h : c.Keyed) (other : Card) : (c.absorb other).Keyed := by
  have href : (other.references.values.foldl Card.addReference c).Keyed :=
    List.foldlRecOn _ _ h fun _ hc r _ => hc.addReference r
  exact List.foldlRecOn _ _ href fun _ hc d _ => hc.addDefinition d

end Card

/-! ## Linked indexes -/

namespace Linked

variable {ix : Linked}

theorem keyed_iff : ix.Keyed ↔ ∀ s c, ix.cards.get? s = some c → c.Keyed := by
  constructor
  · intro h s c hc
    refine ⟨fun l d hd => h.definition s l d ?_, fun l r hr => h.reference s l r ?_⟩
    · rw [definitionAt?, hc]; exact hd
    · rw [referenceAt?, hc]; exact hr
  · intro h
    refine ⟨fun s l d hd => ?_, fun s l r hr => ?_⟩
    · obtain ⟨c, hc, hd⟩ := Option.bind_eq_some_iff.1 hd
      exact (h s c hc).1 l d hd
    · obtain ⟨c, hc, hr⟩ := Option.bind_eq_some_iff.1 hr
      exact (h s c hc).2 l r hr

namespace Keyed

theorem of_cards {ix' : Linked} (h : ix.Keyed) (hc : ix'.cards = ix.cards) : ix'.Keyed := by
  rw [keyed_iff] at h ⊢
  rw [hc]
  exact h

theorem onCard (h : ix.Keyed) (s : Symbol) {f : Card → Card}
    (hf : ∀ c : Card, c.Keyed → (f c).Keyed) : (ix.onCard s f).Keyed := by
  rw [keyed_iff] at h ⊢
  intro t c hc
  rw [Linked.onCard, OrderedMap.get?_modify] at hc
  split at hc
  · rw [← Option.some.inj hc]
    cases hs : ix.cards.get? s with
    | none => exact hf _ .empty
    | some old => exact hf _ (h s old hs)
  · exact h t c hc

theorem drop (h : ix.Keyed) (s : Symbol) : (ix.drop s).Keyed := by
  rw [keyed_iff] at h ⊢
  intro t c hc
  unfold Linked.drop at hc
  split at hc
  · exact h t c hc
  · rw [OrderedMap.get?_erase] at hc
    split at hc
    · cases hc
    · exact h t c hc

theorem update (h : ix.Keyed) (more : OrderedMap Symbol Info) : (ix.update more).Keyed := by
  have hfold : (more.entries.foldl (fun ix e => ix.onCard e.1 (·.absorb (Card.ofInfo e.2)))
      ix).Keyed :=
    List.foldlRecOn _ _ h fun _ h e _ => onCard h e.1 fun _ hc => hc.absorb _
  exact of_cards hfold rfl

theorem find (h : ix.Keyed) (l : Location) : (ix.find l).1.Keyed := by
  unfold Linked.find
  split
  · exact h
  · split
    · exact h
    · exact of_cards (onCard h _ fun _ hc => hc) rfl

theorem setSource (h : ix.Keyed) (s : Symbol) (l : Location) (text : Text) :
    (ix.setSource s l text).Keyed := by
  unfold Linked.setSource
  split
  · exact h
  · next d hd => exact onCard h s fun c hc => hc.insert (h.definition s l d hd)

end Keyed

end Linked

/-! ## Indexes of either kind -/

namespace Index

/-- What can be done to an index. -/
inductive Step where
  | addDefinition (s : Symbol) (d : Definition)
  | addReference (s : Symbol) (r : Reference)
  | set (s : Symbol) (i : Info)
  /-- Storing something that is no info. -/
  | setForeign (s : Symbol)
  | delete (s : Symbol)
  | update (more : OrderedMap Symbol Info)
  | load (data : Snapshot)
  | find (l : Location)
  | setSource (s : Symbol) (l : Location) (text : Text)
  /-- Taking the snapshot of the index over into a new index of its kind. -/
  | reload

/-- The index after a step; what is refused with an error otherwise leaves it as it was. -/
def Step.apply (ix : Index) : Step → Index
  | .addDefinition s d => ix.addDefinition s d
  | .addReference s r => ix.addReference s r
  | .set s i => ix.set s i
  | .setForeign s => (ix.setForeign s).1
  | .delete s => (ix.delete s).toOption.getD ix
  | .update more => ix.update more
  | .load data => (ix.load data).toOption.getD ix
  | .find l => (ix.find l).1
  | .setSource s l text => ix.setSource s l text
  | .reload => ((empty ix.kind).load ix.snapshot).toOption.getD ix

/-- The index of a kind after some steps from an empty one. -/
def run (kind : IndexKind) (steps : List Step) : Index := steps.foldl Step.apply (empty kind)

/-- Records that are kept under places stand at their own. -/
def Keyed : Index → Prop
  | .listed _ => True
  | .linked ix => ix.Keyed

theorem kind_apply (ix : Index) (step : Step) : (step.apply ix).kind = ix.kind := by
  cases ix with
  | listed ix =>
    cases step with
    | delete s =>
      simp only [Step.apply, delete]
      cases ix.delete s <;> rfl
    | load data =>
      simp only [Step.apply, load]
      cases ix.load data <;> rfl
    | reload =>
      simp only [Step.apply, load, empty, kind]
      cases Listed.empty.load (snapshot (.listed ix)) <;> rfl
    | _ => rfl
  | linked ix =>
    cases step with
    | delete s =>
      simp only [Step.apply, delete]
      cases ix.delete s <;> rfl
    | _ => rfl

theorem kind_run (kind : IndexKind) (steps : List Step) : (run kind steps).kind = kind := by
  refine List.foldlRecOn (motive := fun ix => ix.kind = kind) steps Step.apply ?_ ?_
  · cases kind <;> rfl
  · exact fun ix h step _ => (kind_apply ix step).trans h

theorem Keyed.apply {ix : Index} (h : ix.Keyed) (step : Step) : (step.apply ix).Keyed := by
  cases ix with
  | listed ix =>
    have hkind := kind_apply (.listed ix) step
    cases hx : step.apply (.listed ix) with
    | listed _ => trivial
    | linked _ => rw [hx] at hkind; cases hkind
  | linked ix =>
    have h : ix.Keyed := h
    cases step with
    | addDefinition s d => exact h.addDefinition Linked.lasting_keyed s d
    | addReference s r => exact h.addReference Linked.lasting_keyed s r
    | set s i => exact Linked.Keyed.set h s i
    | setForeign s => exact Linked.Keyed.drop h s
    | delete s =>
      simp only [Step.apply, delete, Linked.delete]
      split
      · exact Linked.Keyed.drop h s
      · exact h
    | update more => exact Linked.Keyed.update h more
    | load data => exact Linked.Keyed.load h data
    | find l => exact Linked.Keyed.find h l
    | setSource s l text => exact Linked.Keyed.setSource h s l text
    | reload => exact Linked.Keyed.load .empty ix.snapshot

theorem run_keyed (kind : IndexKind) (steps : List Step) : (run kind steps).Keyed := by
  refine List.foldlRecOn steps Step.apply ?_ fun _ h step _ => h.apply step
  cases kind with
  | listed => trivial
  | linked => exact Linked.Each.empty

/-! ## Snapshots -/

theorem metadata_snapshot (ix : Index) : ix.snapshot.metadata = none := by
  cases ix <;> rfl

/-- Entries with distinct symbols become a listed index in their order. -/
theorem exists_listed_load {data : Snapshot} (hkind : data.kind = Listed.kindName)
    (h : (data.entries.map Prod.fst).Nodup) :
    ∃ ix, Listed.empty.load data = .ok ix ∧ ix.items = data.entries := by
  have hmk : data.entries.foldl (fun x e => x.set e.1 e.2) Listed.empty =
      ⟨data.entries.foldl (fun m e => m.insert e.1 e.2) .empty⟩ :=
    List.foldl_hom Listed.mk fun _ _ => rfl
  refine ⟨⟨data.entries.foldl (fun m e => m.insert e.1 e.2) .empty⟩, ?_, ?_⟩
  · rw [Listed.load, if_pos hkind, hmk]
  · rw [Listed.items, OrderedMap.entries_foldl_insert Prod.fst Prod.snd data.entries .empty h]
    simp [OrderedMap.empty]

/-- A listed index is the index of its own snapshot. -/
theorem listed_load_snapshot (ix : Listed) : Listed.empty.load ix.snapshot = .ok ix := by
  obtain ⟨ix', hload, hitems⟩ := @exists_listed_load ix.snapshot rfl ix.infos.nodup_keys
  have hinfos : ix'.infos = ix.infos := OrderedMap.ext hitems
  rw [hload]
  cases ix
  cases ix'
  cases hinfos
  rfl

theorem load_snapshot {ix : Index} (h : ix.Keyed) :
    ∃ ix', (empty ix.kind).load ix.snapshot = .ok ix' ∧ ix'.snapshot = ix.snapshot := by
  cases ix with
  | listed ix =>
    refine ⟨.listed ix, ?_, rfl⟩
    have := listed_load_snapshot ix
    simp only [load, empty, kind, snapshot, this, Except.map]
  | linked ix =>
    have hcards : (Linked.empty.load ix.snapshot).cards = ix.cards := Linked.cards_load_snapshot h
    refine ⟨.linked (Linked.empty.load ix.snapshot), rfl, ?_⟩
    simp only [snapshot, Linked.snapshot, Linked.items] at hcards ⊢
    rw [hcards]

/-! ## Both ends of a call -/

/-- A step that adds a record, or takes over what is recorded. -/
def Step.Records : Step → Prop
  | .addDefinition .. | .addReference .. | .reload => True
  | _ => False

/-- `run .linked steps` of `Step.Records`: a definition makes a call iff the reference there knows
the definition, no record names anything twice, and every record is kept under its own place. -/
theorem run_twoSided {steps : List Step} (h : ∀ step ∈ steps, step.Records) :
    ∃ ix, run .linked steps = .linked ix ∧
      (∀ (f g : Symbol) (d r : Location),
        (∃ x, ix.definitionAt? f d = some x ∧ ⟨g, r⟩ ∈ x.calls) ↔
          ∃ y, ix.referenceAt? g r = some y ∧ ⟨f, d⟩ ∈ y.callers) ∧
      (∀ s l x, ix.definitionAt? s l = some x → x.location = l ∧ x.calls.Nodup) ∧
      (∀ s l y, ix.referenceAt? s l = some y → y.location = l ∧ y.callers.Nodup) := by
  have hrun : ∃ ix, run .linked steps = .linked ix ∧ ix.TwoSided := by
    refine List.foldlRecOn (motive := fun x => ∃ ix, x = .linked ix ∧ ix.TwoSided) steps Step.apply
      ⟨_, rfl, .empty⟩ ?_
    rintro _ ⟨ix, rfl, hix⟩ step hstep
    cases step with
    | addDefinition s d => exact ⟨_, rfl, hix.addDefinition s d⟩
    | addReference s r => exact ⟨_, rfl, hix.addReference s r⟩
    | reload => exact ⟨_, rfl, hix.load_snapshot⟩
    | _ => exact (h _ hstep).elim
  obtain ⟨ix, hix, htwo⟩ := hrun
  exact ⟨ix, hix, fun f g d r => htwo.calls_iff ⟨f, d⟩ ⟨g, r⟩, htwo.tidy.definition,
    htwo.tidy.reference⟩

/-- A call that is told with its definition is known to the reference after a reload. -/
theorem run_twoSided_reloaded :
    ∃ ix, run .linked [.addDefinition (.function "f")
        { Definition.bare (Linked.lineAt 1) with calls := [⟨.function "g", Linked.lineAt 2⟩] },
        .reload] = .linked ix ∧
      ∃ y, ix.referenceAt? (.function "g") (Linked.lineAt 2) = some y ∧
        ⟨.function "f", Linked.lineAt 1⟩ ∈ y.callers := by
  obtain ⟨ix, hix, hcalls, -⟩ := @run_twoSided [.addDefinition (.function "f")
    { Definition.bare (Linked.lineAt 1) with calls := [⟨.function "g", Linked.lineAt 2⟩] }, .reload]
    (by simp [Step.Records])
  refine ⟨ix, hix, (hcalls _ _ _ _).1 ?_⟩
  obtain rfl := Index.linked.inj hix
  exact ⟨_, rfl, .head _⟩

end Index

end CallAtlas
