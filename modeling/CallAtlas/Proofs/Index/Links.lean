import CallAtlas.Index.Linked
import CallAtlas.Proofs.OrderedMap

/-! # Both ends of a call

A linked index records a call in the definition that makes it (`Linked.Calls`) and in the reference
that is made (`Linked.CalledBy`). Adding a definition or a reference adds the same pairs to both
relations (`calls_addDefinition`, `calledBy_addDefinition`, `calls_addReference`,
`calledBy_addReference`), so they stay each other's converse. `Linked.Each` is about single records;
what a record keeps when it absorbs another (`Linked.Lasting`) holds of all records for good, such
as that they stand at their own places (`Linked.Keyed`) and name nothing twice (`Linked.Tidy`). An
index whose records stand at their own places has the cards of its snapshot loaded again
(`cards_load_snapshot`). So an index stays `Linked.TwoSided` when something is added to it, and when
its snapshot is loaded again. -/

namespace CallAtlas

/-! ## Cards -/

namespace Card

theorem definitions_addDefinition (c : Card) (d : Definition) (l : Location) :
    (c.addDefinition d).definitions.get? l = if d.location = l then
      some (((c.definitions.get? l).getD (.bare l)).absorb d) else c.definitions.get? l := by
  rw [addDefinition, OrderedMap.get?_modify]
  split
  · next h => rw [h]
  · rfl

theorem references_addReference (c : Card) (r : Reference) (l : Location) :
    (c.addReference r).references.get? l = if r.location = l then
      some (((c.references.get? l).getD (.bare l)).absorb r) else c.references.get? l := by
  rw [addReference, OrderedMap.get?_modify]
  split
  · next h => rw [h]
  · rfl

end Card

namespace Linked

/-! ## Views -/

/-- The reference that a symbol has at a place. -/
def referenceAt? (ix : Linked) (s : Symbol) (l : Location) : Option Reference :=
  (ix.cards.get? s).bind fun c => c.references.get? l

/-- The definition at a site makes a call. -/
def Calls (ix : Linked) (caller call : Site) : Prop :=
  ∃ d, ix.definitionAt? caller.symbol caller.location = some d ∧ call ∈ d.calls

/-- The reference at a site knows that it stands in a definition. -/
def CalledBy (ix : Linked) (call caller : Site) : Prop :=
  ∃ r, ix.referenceAt? call.symbol call.location = some r ∧ caller ∈ r.callers

/-- A call of a symbol at a place is recorded. -/
def Refers (ix : Linked) (call : Site) : Prop :=
  ∃ r, ix.referenceAt? call.symbol call.location = some r

section
variable (ix : Linked) (s t : Symbol) (l : Location)

theorem card_definitions :
    ((ix.cards.get? s).getD .empty).definitions.get? l = ix.definitionAt? s l := by
  rw [definitionAt?]
  cases ix.cards.get? s <;> rfl

theorem card_references :
    ((ix.cards.get? s).getD .empty).references.get? l = ix.referenceAt? s l := by
  rw [referenceAt?]
  cases ix.cards.get? s <;> rfl

theorem definitionAt?_onCard (f : Card → Card) : (ix.onCard s f).definitionAt? t l = if s = t then
    (f ((ix.cards.get? s).getD .empty)).definitions.get? l else ix.definitionAt? t l := by
  rw [definitionAt?, onCard, OrderedMap.get?_modify]
  split <;> rfl

theorem referenceAt?_onCard (f : Card → Card) : (ix.onCard s f).referenceAt? t l = if s = t then
    (f ((ix.cards.get? s).getD .empty)).references.get? l else ix.referenceAt? t l := by
  rw [referenceAt?, onCard, OrderedMap.get?_modify]
  split <;> rfl

@[simp]
theorem definitionAt?_own (k : Location) : (ix.own k s).definitionAt? t l = ix.definitionAt? t l :=
  rfl

@[simp]
theorem referenceAt?_own (k : Location) : (ix.own k s).referenceAt? t l = ix.referenceAt? t l := rfl

end

/-! ## One record -/

section
variable (ix : Linked) (s t : Symbol) (l : Location)

theorem definitionAt?_onCard_addDefinition (d : Definition) :
    (ix.onCard s (·.addDefinition d)).definitionAt? t l = if s = t ∧ d.location = l then
      some (((ix.definitionAt? t l).getD (.bare l)).absorb d) else ix.definitionAt? t l := by
  rw [definitionAt?_onCard]
  by_cases hs : s = t
  · subst hs
    simp only [if_true, true_and, Card.definitions_addDefinition, card_definitions]
  · simp only [hs, if_false, false_and]

@[simp]
theorem referenceAt?_onCard_addDefinition (d : Definition) :
    (ix.onCard s (·.addDefinition d)).referenceAt? t l = ix.referenceAt? t l := by
  rw [referenceAt?_onCard]
  split
  · next h => subst h; exact card_references ix s l
  · rfl

theorem referenceAt?_onCard_addReference (r : Reference) :
    (ix.onCard s (·.addReference r)).referenceAt? t l = if s = t ∧ r.location = l then
      some (((ix.referenceAt? t l).getD (.bare l)).absorb r) else ix.referenceAt? t l := by
  rw [referenceAt?_onCard]
  by_cases hs : s = t
  · subst hs
    simp only [if_true, true_and, Card.references_addReference, card_references]
  · simp only [hs, if_false, false_and]

@[simp]
theorem definitionAt?_onCard_addReference (r : Reference) :
    (ix.onCard s (·.addReference r)).definitionAt? t l = ix.definitionAt? t l := by
  rw [definitionAt?_onCard]
  split
  · next h => subst h; exact card_definitions ix s l
  · rfl

end

section
variable {ix : Linked} {s : Symbol} {caller call : Site}

theorem calls_onCard_addDefinition {d : Definition} :
    (ix.onCard s (·.addDefinition d)).Calls caller call ↔
      ix.Calls caller call ∨ (caller = ⟨s, d.location⟩ ∧ call ∈ d.calls) := by
  obtain ⟨f, l⟩ := caller
  simp only [Calls, definitionAt?_onCard_addDefinition, Site.mk.injEq]
  by_cases h : s = f ∧ d.location = l
  · obtain ⟨rfl, rfl⟩ := h
    simp only [and_self, if_true, Option.some.injEq, exists_eq_left', Definition.absorb,
      mem_addAllIfAbsent, true_and]
    cases ix.definitionAt? s d.location <;> simp [Definition.bare]
  · have h' : ¬ (f = s ∧ l = d.location) := fun e => h ⟨e.1.symm, e.2.symm⟩
    simp only [h, if_false, h', false_and, or_false]

theorem calledBy_onCard_addReference {r : Reference} :
    (ix.onCard s (·.addReference r)).CalledBy call caller ↔
      ix.CalledBy call caller ∨ (call = ⟨s, r.location⟩ ∧ caller ∈ r.callers) := by
  obtain ⟨g, l⟩ := call
  simp only [CalledBy, referenceAt?_onCard_addReference, Site.mk.injEq]
  by_cases h : s = g ∧ r.location = l
  · obtain ⟨rfl, rfl⟩ := h
    simp only [and_self, if_true, Option.some.injEq, exists_eq_left', Reference.absorb,
      mem_addAllIfAbsent, true_and]
    cases ix.referenceAt? s r.location <;> simp [Reference.bare]
  · have h' : ¬ (g = s ∧ l = r.location) := fun e => h ⟨e.1.symm, e.2.symm⟩
    simp only [h, if_false, h', false_and, or_false]

theorem calls_onCard_addReference {r : Reference} :
    (ix.onCard s (·.addReference r)).Calls caller call ↔ ix.Calls caller call := by
  simp only [Calls, definitionAt?_onCard_addReference]

theorem calledBy_onCard_addDefinition {d : Definition} :
    (ix.onCard s (·.addDefinition d)).CalledBy call caller ↔ ix.CalledBy call caller := by
  simp only [CalledBy, referenceAt?_onCard_addDefinition]

theorem refers_onCard_addReference {r : Reference} :
    (ix.onCard s (·.addReference r)).Refers call ↔ ix.Refers call ∨ call = ⟨s, r.location⟩ := by
  obtain ⟨g, l⟩ := call
  simp only [Refers, referenceAt?_onCard_addReference, Site.mk.injEq]
  by_cases h : s = g ∧ r.location = l
  · obtain ⟨rfl, rfl⟩ := h
    simp
  · have h' : ¬ (g = s ∧ l = r.location) := fun e => h ⟨e.1.symm, e.2.symm⟩
    simp only [h, if_false, h', or_false]

theorem refers_onCard_addDefinition {d : Definition} :
    (ix.onCard s (·.addDefinition d)).Refers call ↔ ix.Refers call := by
  simp only [Refers, referenceAt?_onCard_addDefinition]

theorem calls_own {l : Location} : (ix.own l s).Calls caller call ↔ ix.Calls caller call := .rfl

theorem calledBy_own {l : Location} : (ix.own l s).CalledBy call caller ↔ ix.CalledBy call caller :=
  .rfl

theorem refers_own {l : Location} : (ix.own l s).Refers call ↔ ix.Refers call := .rfl

end

/-! ## Additions -/

/-- Records at the called symbol in which definition a call stands. -/
def noteCaller (caller : Site) (ix : Linked) (call : Site) : Linked :=
  ix.onCard call.symbol (·.addReference ⟨call.location, [caller]⟩)

/-- Records at the calling symbol that its definition makes a call. -/
def noteCall (call : Site) (ix : Linked) (caller : Site) : Linked :=
  (ix.onCard caller.symbol
    (·.addDefinition ((Definition.bare caller.location).addCall call))).own
    caller.location caller.symbol

theorem addDefinition_eq (ix : Linked) (s : Symbol) (d : Definition) : ix.addDefinition s d =
    d.calls.foldl (noteCaller ⟨s, d.location⟩)
      ((ix.onCard s (·.addDefinition d)).own d.location s) := rfl

theorem addReference_eq (ix : Linked) (s : Symbol) (r : Reference) : ix.addReference s r =
    r.callers.foldl (noteCall ⟨s, r.location⟩) (ix.onCard s (·.addReference r)) := rfl

section
variable {ix : Linked} {s : Symbol} {caller call x y : Site}

theorem calls_noteCaller : (ix.noteCaller x y).Calls caller call ↔ ix.Calls caller call :=
  calls_onCard_addReference

theorem calledBy_noteCaller : (ix.noteCaller x y).CalledBy call caller ↔
    ix.CalledBy call caller ∨ (call = y ∧ caller = x) := by
  rw [noteCaller, calledBy_onCard_addReference, List.mem_singleton]

theorem calls_noteCall : (ix.noteCall y x).Calls caller call ↔
    ix.Calls caller call ∨ (caller = x ∧ call = y) := by
  rw [noteCall, calls_own, calls_onCard_addDefinition]
  simp [Definition.addCall, Definition.bare, addIfAbsent]

theorem calledBy_noteCall : (ix.noteCall y x).CalledBy call caller ↔ ix.CalledBy call caller :=
  calledBy_onCard_addDefinition

theorem calls_foldl_noteCaller (calls : List Site) :
    (calls.foldl (noteCaller x) ix).Calls caller call ↔ ix.Calls caller call := by
  induction calls generalizing ix with
  | nil => exact .rfl
  | cons c calls ih => rw [List.foldl_cons, ih, calls_noteCaller]

theorem calledBy_foldl_noteCaller (calls : List Site) :
    (calls.foldl (noteCaller x) ix).CalledBy call caller ↔
      ix.CalledBy call caller ∨ (caller = x ∧ call ∈ calls) := by
  induction calls generalizing ix with
  | nil => simp
  | cons c calls ih =>
    rw [List.foldl_cons, ih, calledBy_noteCaller, List.mem_cons, or_assoc, and_comm (a := call = c),
      ← and_or_left]

theorem calls_foldl_noteCall (callers : List Site) :
    (callers.foldl (noteCall y) ix).Calls caller call ↔
      ix.Calls caller call ∨ (call = y ∧ caller ∈ callers) := by
  induction callers generalizing ix with
  | nil => simp
  | cons c callers ih =>
    rw [List.foldl_cons, ih, calls_noteCall, List.mem_cons, or_assoc, and_comm (a := caller = c),
      ← and_or_left]

theorem calledBy_foldl_noteCall (callers : List Site) :
    (callers.foldl (noteCall y) ix).CalledBy call caller ↔ ix.CalledBy call caller := by
  induction callers generalizing ix with
  | nil => exact .rfl
  | cons c callers ih => rw [List.foldl_cons, ih, calledBy_noteCall]

theorem refers_foldl_noteCaller (calls : List Site) :
    (calls.foldl (noteCaller x) ix).Refers call ↔ ix.Refers call ∨ call ∈ calls := by
  induction calls generalizing ix with
  | nil => simp
  | cons c calls ih =>
    rw [List.foldl_cons, ih, noteCaller, refers_onCard_addReference, List.mem_cons, or_assoc]

theorem refers_foldl_noteCall (callers : List Site) :
    (callers.foldl (noteCall y) ix).Refers call ↔ ix.Refers call := by
  induction callers generalizing ix with
  | nil => exact .rfl
  | cons c callers ih =>
    rw [List.foldl_cons, ih, noteCall, refers_own, refers_onCard_addDefinition]

/-- A definition adds its own calls. -/
theorem calls_addDefinition {d : Definition} : (ix.addDefinition s d).Calls caller call ↔
    ix.Calls caller call ∨ (caller = ⟨s, d.location⟩ ∧ call ∈ d.calls) := by
  rw [addDefinition_eq, calls_foldl_noteCaller, calls_own, calls_onCard_addDefinition]

/-- What a definition calls learns of the same calls. -/
theorem calledBy_addDefinition {d : Definition} : (ix.addDefinition s d).CalledBy call caller ↔
    ix.CalledBy call caller ∨ (caller = ⟨s, d.location⟩ ∧ call ∈ d.calls) := by
  rw [addDefinition_eq, calledBy_foldl_noteCaller, calledBy_own, calledBy_onCard_addDefinition]

/-- The definitions around a reference learn of it. -/
theorem calls_addReference {r : Reference} : (ix.addReference s r).Calls caller call ↔
    ix.Calls caller call ∨ (call = ⟨s, r.location⟩ ∧ caller ∈ r.callers) := by
  rw [addReference_eq, calls_foldl_noteCall, calls_onCard_addReference]

/-- A reference adds the definitions around it. -/
theorem calledBy_addReference {r : Reference} : (ix.addReference s r).CalledBy call caller ↔
    ix.CalledBy call caller ∨ (call = ⟨s, r.location⟩ ∧ caller ∈ r.callers) := by
  rw [addReference_eq, calledBy_foldl_noteCall, calledBy_onCard_addReference]

theorem refers_addDefinition {d : Definition} :
    (ix.addDefinition s d).Refers call ↔ ix.Refers call ∨ call ∈ d.calls := by
  rw [addDefinition_eq, refers_foldl_noteCaller, refers_own, refers_onCard_addDefinition]

theorem refers_addReference {r : Reference} :
    (ix.addReference s r).Refers call ↔ ix.Refers call ∨ call = ⟨s, r.location⟩ := by
  rw [addReference_eq, refers_foldl_noteCall, refers_onCard_addReference]

end

/-! ## Several additions -/

/-- Adds definitions one after the other. -/
def addDefinitions (ix : Linked) (ds : List (Symbol × Definition)) : Linked :=
  ds.foldl (fun ix e => ix.addDefinition e.1 e.2) ix

/-- Adds references one after the other. -/
def addReferences (ix : Linked) (rs : List (Symbol × Reference)) : Linked :=
  rs.foldl (fun ix e => ix.addReference e.1 e.2) ix

section
variable {ix : Linked} {caller call : Site}

theorem calledBy_addDefinitions (ds : List (Symbol × Definition)) :
    (ix.addDefinitions ds).CalledBy call caller ↔ ix.CalledBy call caller ∨
      ∃ e ∈ ds, caller = ⟨e.1, e.2.location⟩ ∧ call ∈ e.2.calls := by
  induction ds generalizing ix with
  | nil => simp [addDefinitions]
  | cons e ds ih =>
    change ((ix.addDefinition e.1 e.2).addDefinitions ds).CalledBy call caller ↔ _
    rw [ih, calledBy_addDefinition, or_assoc]
    simp only [List.mem_cons, exists_eq_or_imp]

theorem refers_addDefinitions (ds : List (Symbol × Definition)) :
    (ix.addDefinitions ds).Refers call ↔ ix.Refers call ∨ ∃ e ∈ ds, call ∈ e.2.calls := by
  induction ds generalizing ix with
  | nil => simp [addDefinitions]
  | cons e ds ih =>
    change ((ix.addDefinition e.1 e.2).addDefinitions ds).Refers call ↔ _
    rw [ih, refers_addDefinition, or_assoc]
    simp only [List.mem_cons, exists_eq_or_imp]

theorem calledBy_addReferences (rs : List (Symbol × Reference)) :
    (ix.addReferences rs).CalledBy call caller ↔ ix.CalledBy call caller ∨
      ∃ e ∈ rs, call = ⟨e.1, e.2.location⟩ ∧ caller ∈ e.2.callers := by
  induction rs generalizing ix with
  | nil => simp [addReferences]
  | cons e rs ih =>
    change ((ix.addReference e.1 e.2).addReferences rs).CalledBy call caller ↔ _
    rw [ih, calledBy_addReference, or_assoc]
    simp only [List.mem_cons, exists_eq_or_imp]

theorem refers_addReferences (rs : List (Symbol × Reference)) :
    (ix.addReferences rs).Refers call ↔
      ix.Refers call ∨ ∃ e ∈ rs, call = ⟨e.1, e.2.location⟩ := by
  induction rs generalizing ix with
  | nil => simp [addReferences]
  | cons e rs ih =>
    change ((ix.addReference e.1 e.2).addReferences rs).Refers call ↔ _
    rw [ih, refers_addReference, or_assoc]
    simp only [List.mem_cons, exists_eq_or_imp]

end

/-! ## Records -/

/-- Every definition and every reference meets a condition at its place. -/
structure Each (P : Location → Definition → Prop) (Q : Location → Reference → Prop)
    (ix : Linked) : Prop where
  definition : ∀ s l d, ix.definitionAt? s l = some d → P l d
  reference : ∀ s l r, ix.referenceAt? s l = some r → Q l r

/-- Conditions that a record meets from the start and keeps when it absorbs another. -/
structure Lasting (P : Location → Definition → Prop) (Q : Location → Reference → Prop) : Prop where
  definition_bare : ∀ l, P l (.bare l)
  definition_absorb : ∀ {l d}, P l d → ∀ e, P l (d.absorb e)
  reference_bare : ∀ l, Q l (.bare l)
  reference_absorb : ∀ {l r}, Q l r → ∀ e, Q l (r.absorb e)

namespace Each

variable {P : Location → Definition → Prop} {Q : Location → Reference → Prop} {ix : Linked}

theorem empty : Linked.empty.Each P Q := ⟨fun _ _ _ h => (nomatch h), fun _ _ _ h => (nomatch h)⟩

theorem own (h : ix.Each P Q) (l : Location) (s : Symbol) : (ix.own l s).Each P Q := ⟨h.1, h.2⟩

variable (hl : Lasting P Q)

include hl

theorem onCard_addDefinition (h : ix.Each P Q) (s : Symbol) (d : Definition) :
    (ix.onCard s (·.addDefinition d)).Each P Q := by
  refine ⟨fun t l x hx => ?_, fun t l r hr => ?_⟩
  · rw [definitionAt?_onCard_addDefinition] at hx
    split at hx
    · rw [Option.some.injEq] at hx
      subst hx
      refine hl.definition_absorb ?_ d
      cases ho : ix.definitionAt? t l with
      | none => exact hl.definition_bare l
      | some old => exact h.definition t l old ho
    · exact h.definition t l x hx
  · rw [referenceAt?_onCard_addDefinition] at hr
    exact h.reference t l r hr

theorem onCard_addReference (h : ix.Each P Q) (s : Symbol) (r : Reference) :
    (ix.onCard s (·.addReference r)).Each P Q := by
  refine ⟨fun t l d hd => ?_, fun t l x hx => ?_⟩
  · rw [definitionAt?_onCard_addReference] at hd
    exact h.definition t l d hd
  · rw [referenceAt?_onCard_addReference] at hx
    split at hx
    · rw [Option.some.injEq] at hx
      subst hx
      refine hl.reference_absorb ?_ r
      cases ho : ix.referenceAt? t l with
      | none => exact hl.reference_bare l
      | some old => exact h.reference t l old ho
    · exact h.reference t l x hx

theorem foldl_noteCaller (h : ix.Each P Q) (caller : Site) (calls : List Site) :
    (calls.foldl (noteCaller caller) ix).Each P Q := by
  induction calls generalizing ix with
  | nil => exact h
  | cons c calls ih => exact ih (h.onCard_addReference hl _ _)

theorem foldl_noteCall (h : ix.Each P Q) (call : Site) (callers : List Site) :
    (callers.foldl (noteCall call) ix).Each P Q := by
  induction callers generalizing ix with
  | nil => exact h
  | cons c callers ih => exact ih ((h.onCard_addDefinition hl _ _).own _ _)

theorem addDefinition (h : ix.Each P Q) (s : Symbol) (d : Definition) :
    (ix.addDefinition s d).Each P Q :=
  ((h.onCard_addDefinition hl s d).own d.location s).foldl_noteCaller hl _ _

theorem addReference (h : ix.Each P Q) (s : Symbol) (r : Reference) :
    (ix.addReference s r).Each P Q :=
  (h.onCard_addReference hl s r).foldl_noteCall hl _ _

end Each

/-- Every record stands at its own place. -/
abbrev Keyed (ix : Linked) : Prop :=
  ix.Each (fun l d => d.location = l) (fun l r => r.location = l)

theorem lasting_keyed : Lasting (fun l d => d.location = l) (fun l r => r.location = l) where
  definition_bare _ := rfl
  definition_absorb h _ := h
  reference_bare _ := rfl
  reference_absorb h _ := h

/-- Every record stands at its own place and names nothing twice. -/
abbrev Tidy (ix : Linked) : Prop :=
  ix.Each (fun l d => d.location = l ∧ d.calls.Nodup) (fun l r => r.location = l ∧ r.callers.Nodup)

theorem lasting_tidy : Lasting (fun l d => d.location = l ∧ d.calls.Nodup)
    (fun l r => r.location = l ∧ r.callers.Nodup) where
  definition_bare _ := ⟨rfl, .nil⟩
  definition_absorb h _ := ⟨h.1, nodup_addAllIfAbsent h.2 _⟩
  reference_bare _ := ⟨rfl, .nil⟩
  reference_absorb h _ := ⟨h.1, nodup_addAllIfAbsent h.2 _⟩

theorem Tidy.keyed {ix : Linked} (h : ix.Tidy) : ix.Keyed :=
  ⟨fun s l d hd => (h.definition s l d hd).1, fun s l r hr => (h.reference s l r hr).1⟩

/-! ## Loading a snapshot -/

theorem cards_foldl_set (items : List (Symbol × Info)) (ix : Linked)
    (h : (ix.cards.keys ++ items.map Prod.fst).Nodup) :
    (items.foldl (fun ix e => ix.set e.1 e.2) ix).cards =
      items.foldl (fun m e => m.insert e.1 (Card.ofInfo e.2)) ix.cards := by
  induction items generalizing ix with
  | nil => rfl
  | cons e items ih =>
    have he : e.1 ∉ ix.cards.keys := fun hm => (List.nodup_append.1 h).2.2 _ hm _ (.head _) rfl
    have hset : (ix.set e.1 e.2).cards = ix.cards.insert e.1 (Card.ofInfo e.2) := by
      rw [set, drop, OrderedMap.get?_eq_none_iff.2 he]
    rw [List.foldl_cons, List.foldl_cons, ih, hset]
    rw [hset, OrderedMap.keys_insert, if_neg he, List.append_assoc]
    exact h

/-- Entries with distinct symbols become cards in their order. -/
theorem entries_cards_load {data : Snapshot} (h : (data.entries.map Prod.fst).Nodup) :
    (Linked.empty.load data).cards.entries = data.entries.map fun e => (e.1, Card.ofInfo e.2) := by
  have hset := cards_foldl_set data.entries Linked.empty h
  rw [load, reown]
  exact (congrArg _ hset).trans
    (OrderedMap.entries_foldl_insert Prod.fst (fun e => Card.ofInfo e.2) _ _ h)

/-- The lists of a card make up the card again. -/
theorem Keyed.ofInfo_toInfo {ix : Linked} (h : ix.Keyed) {s : Symbol} {c : Card}
    (hc : ix.cards.get? s = some c) : Card.ofInfo c.toInfo = c := by
  have hd : ∀ e ∈ c.definitions.entries, e.2.location = e.1 := fun e he => by
    refine h.definition s e.1 e.2 ?_
    rw [definitionAt?, hc]
    exact OrderedMap.get?_eq_some_iff.2 he
  have hr : ∀ e ∈ c.references.entries, e.2.location = e.1 := fun e he => by
    refine h.reference s e.1 e.2 ?_
    rw [referenceAt?, hc]
    exact OrderedMap.get?_eq_some_iff.2 he
  rw [Card.ofInfo, Card.toInfo, OrderedMap.foldl_insert_values Definition.location hd,
    OrderedMap.foldl_insert_values Reference.location hr]

/-- An index has the cards of its own snapshot. -/
theorem cards_load_snapshot {ix : Linked} (h : ix.Keyed) :
    (Linked.empty.load ix.snapshot).cards = ix.cards := by
  have hkeys : ix.items.map Prod.fst = ix.cards.keys := by
    simp [items, OrderedMap.keys, Function.comp_def]
  have hnd : (ix.snapshot.entries.map Prod.fst).Nodup := hkeys ▸ ix.cards.nodup_keys
  apply OrderedMap.ext
  calc (Linked.empty.load ix.snapshot).cards.entries
      = ix.items.map fun e => (e.1, Card.ofInfo e.2) := entries_cards_load hnd
    _ = ix.cards.entries := by
        conv => rhs; rw [← List.map_id ix.cards.entries]
        rw [items, List.map_map]
        refine List.map_congr_left fun e he => ?_
        exact Prod.ext rfl (Keyed.ofInfo_toInfo h (OrderedMap.get?_eq_some_iff.2 he))

/-! ## Both ends -/

/-- An index is tidy, and every call is recorded at both ends or at none. -/
structure TwoSided (ix : Linked) : Prop where
  tidy : ix.Tidy
  calls_iff : ∀ caller call, ix.Calls caller call ↔ ix.CalledBy call caller

theorem TwoSided.empty : Linked.empty.TwoSided :=
  ⟨.empty, fun _ _ => ⟨fun ⟨_, h, _⟩ => (nomatch h), fun ⟨_, h, _⟩ => (nomatch h)⟩⟩

/-- Indexes with the same cards record the same. -/
theorem TwoSided.of_cards {ix ix' : Linked} (h : ix.TwoSided) (hc : ix'.cards = ix.cards) :
    ix'.TwoSided := by
  have hd : ∀ s l, ix'.definitionAt? s l = ix.definitionAt? s l := fun s l => by
    rw [definitionAt?, hc]; rfl
  have hr : ∀ s l, ix'.referenceAt? s l = ix.referenceAt? s l := fun s l => by
    rw [referenceAt?, hc]; rfl
  refine ⟨⟨fun s l d => ?_, fun s l r => ?_⟩, fun caller call => ?_⟩
  · rw [hd]; exact h.tidy.definition s l d
  · rw [hr]; exact h.tidy.reference s l r
  · simp only [Calls, CalledBy, hd, hr]
    exact h.calls_iff caller call

theorem TwoSided.addDefinition {ix : Linked} (h : ix.TwoSided) (s : Symbol) (d : Definition) :
    (ix.addDefinition s d).TwoSided := by
  refine ⟨h.tidy.addDefinition lasting_tidy s d, fun caller call => ?_⟩
  rw [calls_addDefinition, calledBy_addDefinition, h.calls_iff]

theorem TwoSided.addReference {ix : Linked} (h : ix.TwoSided) (s : Symbol) (r : Reference) :
    (ix.addReference s r).TwoSided := by
  refine ⟨h.tidy.addReference lasting_tidy s r, fun caller call => ?_⟩
  rw [calls_addReference, calledBy_addReference, h.calls_iff]

theorem TwoSided.load_snapshot {ix : Linked} (h : ix.TwoSided) :
    (Linked.empty.load ix.snapshot).TwoSided :=
  h.of_cards (cards_load_snapshot (Tidy.keyed h.tidy))

/-- Nine columns of a line. -/
def lineAt (n : Int) : Location := ⟨.ofText "m.py", n, 0, n, 9, 10 * n, 10 * n + 9⟩

end Linked

end CallAtlas
