import CallAtlas.Merging
import CallAtlas.Proofs.Index.Additions

/-! # The laws of merging

What records of one place know together is told by `joined`, without any merge. Two such sums merge
to the sum of all their records (`absorb_joined`), so it does not matter which of them are merged
first. A merge in place is `absorb` (`applies_mergeInto`), also that of a record into itself: no
step of it changes what a later step reads from the other record.

* `merge_laws`: merges in place of definitions and of references, and merges into the tables of a
  card, are associative and idempotent, and records of different places are left as they are. -/

namespace CallAtlas

/-! ## Lists -/

section Lists

variable {α : Type} [DecidableEq α]

/-- The items that are not known, each once, in the order in which they first come. -/
def unseen (known items : List α) : List α := (items.filter (· ∉ known)).eraseDups

theorem addAllIfAbsent_eq_append (known items : List α) :
    addAllIfAbsent known items = known ++ unseen known items := by
  induction items generalizing known with
  | nil => simp [addAllIfAbsent, unseen]
  | cons a items ih =>
    rw [addAllIfAbsent, List.foldl_cons, ← addAllIfAbsent, ih]
    by_cases ha : a ∈ known
    · simp [addIfAbsent, unseen, ha]
    · -- the first item is known from then on, which is what `eraseDups` does with the rest
      have hrest : items.filter (· ∉ known ++ [a]) =
          (items.filter (· ∉ known)).filter fun b => !b == a := by
        rw [List.filter_filter]
        refine List.filter_congr fun b _ => ?_
        by_cases hb : b = a <;> simp [hb]
      have hfirst : (a :: items).filter (· ∉ known) = a :: items.filter (· ∉ known) := by simp [ha]
      have hcons : unseen known (a :: items) = a :: unseen (known ++ [a]) items := by
        rw [unseen, hfirst, List.eraseDups_cons, ← hrest, unseen]
      rw [addIfAbsent, if_neg ha, hcons, List.append_assoc, List.singleton_append]

theorem addAllIfAbsent_append (xs ys zs : List α) :
    addAllIfAbsent xs (ys ++ zs) = addAllIfAbsent (addAllIfAbsent xs ys) zs :=
  List.foldl_append

theorem addAllIfAbsent_addIfAbsent (xs ys : List α) (a : α) :
    addAllIfAbsent xs (addIfAbsent ys a) = addIfAbsent (addAllIfAbsent xs ys) a := by
  by_cases ha : a ∈ ys
  · rw [addIfAbsent, if_pos ha, addIfAbsent, if_pos (mem_addAllIfAbsent.2 (.inr ha))]
  · rw [addIfAbsent, if_neg ha, addAllIfAbsent_append]
    rfl

theorem addAllIfAbsent_assoc (xs ys zs : List α) :
    addAllIfAbsent xs (addAllIfAbsent ys zs) = addAllIfAbsent (addAllIfAbsent xs ys) zs := by
  induction zs generalizing ys with
  | nil => rfl
  | cons z zs ih =>
    have hcons (items : List α) :
      addAllIfAbsent items (z :: zs) = addAllIfAbsent (addIfAbsent items z) zs := rfl
    rw [hcons, hcons, ih, addAllIfAbsent_addIfAbsent]

end Lists

/-! ## What records know together -/

/-- A merge of values of which sums are made: `joined` is what a record and others know together. -/
structure Sums {α : Type} (place : α → Location) (absorb : α → α → α) (joined : α → List α → α) :
    Prop where
  place_absorb : ∀ x y, place (absorb x y) = place x
  absorb_self : ∀ x, absorb x x = x
  joined_nil : ∀ x, joined x [] = x
  absorb_joined : ∀ x y xs ys, absorb (joined x xs) (joined y ys) = joined x (xs ++ y :: ys)

namespace Sums

variable {α : Type} {place : α → Location} {absorb : α → α → α} {joined : α → List α → α}
  (h : Sums place absorb joined)
include h

theorem absorb_eq (x y : α) : absorb x y = joined x [y] := by
  simpa [h.joined_nil] using h.absorb_joined x y [] []

theorem absorb_left (x y z : α) : absorb (absorb x y) z = joined x [y, z] := by
  simpa [h.joined_nil, h.absorb_eq] using h.absorb_joined x z [y] []

theorem absorb_right (x y z : α) : absorb x (absorb y z) = joined x [y, z] := by
  simpa [h.joined_nil, h.absorb_eq] using h.absorb_joined x y [] [z]

theorem absorb_twice (x y : α) : absorb (absorb x y) y = absorb x y := by
  rw [h.absorb_left, ← h.absorb_right, h.absorb_self]

end Sums

namespace Definition

/-- What definitions of one place know together: the first doc that is set, the calls of the first
definition and then those of the others that it lacks, the last note that is set, and the source
text of the first definition. -/
def joined (d : Definition) (more : List Definition) : Definition where
  location := d.location
  doc := (d :: more).findSome? doc
  calls := d.calls ++ unseen d.calls (more.flatMap calls)
  note := (d :: more).reverse.findSome? note
  source := d.source

@[simp]
theorem joined_nil (d : Definition) : d.joined [] = d := by
  obtain ⟨location, doc, calls, note, source⟩ := d
  cases doc <;> cases note <;> simp [joined, unseen]

theorem absorb_joined (d e : Definition) (xs ys : List Definition) :
    (d.joined xs).absorb (e.joined ys) = d.joined (xs ++ e :: ys) := by
  have hdoc : ((d :: xs).findSome? doc).or ((e :: ys).findSome? doc) =
      (d :: (xs ++ e :: ys)).findSome? doc := by
    rw [← List.findSome?_append, List.cons_append]
  have hnote : ((e :: ys).reverse.findSome? note).or ((d :: xs).reverse.findSome? note) =
      (d :: (xs ++ e :: ys)).reverse.findSome? note := by
    rw [← List.findSome?_append, ← List.reverse_append, List.cons_append]
  have hcalls : addAllIfAbsent (d.calls ++ unseen d.calls (xs.flatMap calls))
        (e.calls ++ unseen e.calls (ys.flatMap calls)) =
      d.calls ++ unseen d.calls ((xs ++ e :: ys).flatMap calls) := by
    simp only [← addAllIfAbsent_eq_append, addAllIfAbsent_assoc, List.flatMap_append,
      List.flatMap_cons, addAllIfAbsent_append]
  simp only [absorb, joined, hdoc, hnote, hcalls]

theorem absorb_self (d : Definition) : d.absorb d = d := by
  simp only [absorb, Option.or_self, addAllIfAbsent_of_subset fun _ h => h]

theorem sums : Sums location absorb joined :=
  ⟨fun _ _ => rfl, absorb_self, joined_nil, absorb_joined⟩

end Definition

namespace Reference

/-- What references of one place know together: the callers of the first reference and then those of
the others that it lacks. -/
def joined (r : Reference) (more : List Reference) : Reference where
  location := r.location
  callers := r.callers ++ unseen r.callers (more.flatMap callers)

@[simp]
theorem joined_nil (r : Reference) : r.joined [] = r := by
  simp [joined, unseen]

theorem absorb_joined (r s : Reference) (xs ys : List Reference) :
    (r.joined xs).absorb (s.joined ys) = r.joined (xs ++ s :: ys) := by
  simp only [absorb, joined, ← addAllIfAbsent_eq_append, addAllIfAbsent_assoc,
    List.flatMap_append, List.flatMap_cons, addAllIfAbsent_append]

theorem absorb_self (r : Reference) : r.absorb r = r := by
  simp only [absorb, addAllIfAbsent_of_subset fun _ h => h]

theorem sums : Sums location absorb joined :=
  ⟨fun _ _ => rfl, absorb_self, joined_nil, absorb_joined⟩

end Reference

/-! ## Merges in place, step by step -/

namespace Merging

section Steps

variable {ι α β γ : Type} {records : ι → α} {i j : ι}

theorem on_bind (m : Merging ι α β) (k : β → Merging ι α γ) :
    (m >>= k).on records = match m.on records with
      | (.ok b, records) => (k b).on records
      | (.error e, records) => (.error e, records) := by
  simp only [on, ExceptT.run_bind, StateT.run_bind]
  rcases StateT.run (ExceptT.run m) records with ⟨e | b, records'⟩ <;> rfl

theorem on_bind_of_ok {m : Merging ι α Unit} {records' : ι → α}
    (hm : m.on records = (.ok (), records')) (k : Merging ι α γ) :
    (m >>= fun _ => k).on records = k.on records' := by
  rw [on_bind, hm]

@[simp]
theorem on_look_bind (i : ι) (k : α → Merging ι α γ) :
    (look i >>= k).on records = (k (records i)).on records := rfl

theorem on_demandOnePlace_bind (place : α → Location) (apart : MergeError) (k : Merging ι α γ) :
    (demandOnePlace place apart i j >>= fun _ => k).on records =
      if place (records i) = place (records j) then k.on records else (.error apart, records) := by
  rw [on_bind, demandOnePlace]
  by_cases hplace : place (records i) = place (records j)
  · simp only [on_look_bind, if_pos hplace]
    rfl
  · simp only [on_look_bind, if_neg hplace]
    rfl

variable [DecidableEq ι]

@[simp]
theorem on_alter (i : ι) (f : α → α) :
    (alter i f).on records = (.ok (), setAt records i (f (records i))) := rfl

theorem on_forM_alter (add : α → Site → α) (i : ι) (items : List Site) (records : ι → α) :
    (items.forM fun item => alter i (add · item)).on records =
      (.ok (), setAt records i (items.foldl add (records i))) := by
  induction items generalizing records with
  | nil => exact congrArg (Prod.mk _) (setAt_same records i).symm
  | cons item items ih =>
    have hcons : ((item :: items).forM fun item => alter i (add · item)) =
      (alter i (add · item) >>= fun _ => items.forM fun item => alter i (add · item)) := rfl
    rw [hcons, on_bind_of_ok (on_alter ..), ih, setAt_self, setAt_setAt, List.foldl_cons]

theorem on_addItems (items : α → List Site) (add : α → Site → α) (i j : ι) (records : ι → α) :
    (addItems items add i j).on records =
      (.ok (), setAt records i ((items (records j)).foldl add (records i))) :=
  on_forM_alter add i _ records

end Steps

end Merging

/-! ## The laws -/

namespace Merging

variable {ι α : Type} [DecidableEq ι] {place : α → Location} {joined : α → List α → α}
  {apart : MergeError} {merge : ι → ι → Merging ι α Unit} {absorb : α → α → α}

/-- A merge in place of records of one place is `absorb`, and fails for others. -/
def Applies (place : α → Location) (absorb : α → α → α) (apart : MergeError)
    (merge : ι → ι → Merging ι α Unit) : Prop :=
  ∀ records i j, (merge i j).on records =
    if place (records i) = place (records j) then
      (.ok (), setAt records i (absorb (records i) (records j)))
    else (.error apart, records)

/-- The laws of a merge in place of records that have a place, where `joined` tells what records of
one place know together. -/
structure Lawful (place : α → Location) (joined : α → List α → α) (apart : MergeError)
    (merge : ι → ι → Merging ι α Unit) : Prop where
  /-- A merge of `b` into `a` changes no other record than `a`. -/
  once : ∀ records a b, place (records a) = place (records b) →
    (merge a b).on records = (.ok (), setAt records a (joined (records a) [records b]))
  /-- `b` and then `c` merged into `a`, and `c` merged into `b` and the result into `a`: the record
  `a` is the same in the end. `c` is not `a` itself, which changes before `c` is merged. -/
  assoc : ∀ records a b c, c ≠ a → place (records a) = place (records b) →
    place (records b) = place (records c) →
    ∃ left right, (do merge a b; merge a c : Merging ι α Unit).on records = (.ok (), left) ∧
      (do merge b c; merge a b : Merging ι α Unit).on records = (.ok (), right) ∧
      left a = right a ∧ left a = joined (records a) [records b, records c]
  /-- A merge that is made twice is the same as once, whether it fails or not. -/
  twice : ∀ records a b,
    (do merge a b; merge a b : Merging ι α Unit).on records = (merge a b).on records
  /-- A record that is merged into itself stays as it is. -/
  self : ∀ records a, (merge a a).on records = (.ok (), records)
  /-- A merge of records of different places fails and changes no record. -/
  refused : ∀ records a b, place (records a) ≠ place (records b) →
    (merge a b).on records = (.error apart, records)

namespace Applies

variable (h : Applies place absorb apart merge) {records : ι → α} {a b c : ι}
include h

theorem on_ok (hab : place (records a) = place (records b)) :
    (merge a b).on records = (.ok (), setAt records a (absorb (records a) (records b))) := by
  rw [h, if_pos hab]

theorem on_error (hab : place (records a) ≠ place (records b)) :
    (merge a b).on records = (.error apart, records) := by
  rw [h, if_neg hab]

variable (hs : Sums place absorb joined)
include hs

theorem on_again (hab : place (records a) = place (records b)) :
    (merge a b).on (setAt records a (absorb (records a) (records b))) =
      (.ok (), setAt records a (absorb (records a) (records b))) := by
  by_cases hba : b = a
  · rw [hba, hs.absorb_self, setAt_same, h.on_ok rfl, hs.absorb_self, setAt_same]
  · rw [h.on_ok, setAt_self, setAt_of_ne hba, setAt_setAt, hs.absorb_twice]
    rw [setAt_self, setAt_of_ne hba, hs.place_absorb, hab]

theorem on_left (hca : c ≠ a) (hab : place (records a) = place (records b))
    (hbc : place (records b) = place (records c)) :
    (do merge a b; merge a c : Merging ι α Unit).on records =
      (.ok (), setAt records a (joined (records a) [records b, records c])) := by
  rw [on_bind_of_ok (h.on_ok hab), h.on_ok, setAt_self, setAt_of_ne hca, setAt_setAt,
    hs.absorb_left]
  rw [setAt_self, setAt_of_ne hca, hs.place_absorb, hab, hbc]

theorem on_right (hab : place (records a) = place (records b))
    (hbc : place (records b) = place (records c)) :
    ∃ after, (do merge b c; merge a b : Merging ι α Unit).on records = (.ok (), after) ∧
      after a = joined (records a) [records b, records c] := by
  have hsecond : place (setAt records b (absorb (records b) (records c)) a) =
      place (setAt records b (absorb (records b) (records c)) b) := by
    rw [read_setAt (hs.place_absorb ..), read_setAt (hs.place_absorb ..), hab]
  refine ⟨_, (on_bind_of_ok (h.on_ok hbc) _).trans (h.on_ok hsecond), ?_⟩
  rw [setAt_self, setAt_self]
  by_cases hba : a = b
  · -- the second merge is one of a record into itself
    rw [hba, setAt_self, hs.absorb_self, ← hs.absorb_left, hs.absorb_self]
  · rw [setAt_of_ne hba, hs.absorb_right]

theorem lawful : Lawful place joined apart merge where
  once records a b hab := by rw [h.on_ok hab, hs.absorb_eq]
  assoc records a b c hca hab hbc := by
    obtain ⟨after, hafter, ha⟩ := h.on_right hs hab hbc
    exact ⟨_, after, h.on_left hs hca hab hbc, hafter, by rw [setAt_self, ha], setAt_self ..⟩
  twice records a b := by
    by_cases hab : place (records a) = place (records b)
    · rw [on_bind_of_ok (h.on_ok hab), h.on_again hs hab, h.on_ok hab]
    · rw [on_bind, h.on_error hab]
  self records a := by rw [h.on_ok rfl, hs.absorb_self, setAt_same]
  refused records a b := h.on_error

end Applies

end Merging

/-! ## Definitions and references -/

open Merging

namespace Definition

variable {ι : Type} [DecidableEq ι]

theorem on_takeDoc (records : ι → Definition) (i j : ι) : (takeDoc i j).on records =
    (.ok (), setAt records i { records i with doc := (records i).doc.or (records j).doc }) := by
  rw [takeDoc, on_look_bind]
  cases hdoc : (records i).doc with
  | none => rfl
  | some text =>
    have hsame : { records i with doc := some text } = records i := by rw [← hdoc]
    rw [Option.some_or, hsame, setAt_same]
    rfl

theorem foldl_addCall (d : Definition) (more : List Site) :
    more.foldl addCall d = { d with calls := addAllIfAbsent d.calls more } := by
  induction more generalizing d with
  | nil => rfl
  | cons call more ih => exact ih (d.addCall call)

/-- The calls of `j` are joined as they were before `i` became a definition with the same calls. -/
theorem on_addCalls_setAt {records : ι → Definition} {i : ι} {d : Definition}
    (hd : d.calls = (records i).calls) (j : ι) :
    (addItems calls addCall i j).on (setAt records i d) =
      (.ok (), setAt records i { d with calls := addAllIfAbsent d.calls (records j).calls }) := by
  rw [on_addItems, read_setAt hd, setAt_self, setAt_setAt, foldl_addCall]

theorem on_takeNote (records : ι → Definition) (i j : ι) : (takeNote i j).on records =
    (.ok (), setAt records i { records i with note := (records j).note.or (records i).note }) := by
  rw [takeNote, on_look_bind]
  cases hnote : (records j).note with
  | none =>
    rw [Option.none_or, setAt_same]
    rfl
  | some note =>
    have hsome : (records j).note.isSome = true := Option.isSome_of_eq_some hnote
    rw [Option.some_or, ← hnote, if_pos hsome]
    rfl

/-- The note of `j` is taken as it was before `i` became a definition with the same note. -/
theorem on_takeNote_setAt {records : ι → Definition} {i : ι} {d : Definition}
    (hd : d.note = (records i).note) (j : ι) : (takeNote i j).on (setAt records i d) =
      (.ok (), setAt records i { d with note := (records j).note.or d.note }) := by
  rw [on_takeNote, read_setAt hd, setAt_self, setAt_setAt]

theorem applies_mergeInto :
    Applies location absorb .definitionsApart (mergeInto : ι → ι → Merging ι Definition Unit) := by
  intro records i j
  rw [mergeInto, on_demandOnePlace_bind, on_bind_of_ok (on_takeDoc records i j),
    on_bind_of_ok (on_addCalls_setAt ?calls j), on_takeNote_setAt ?note j]
  case calls => rfl
  case note => rfl
  rfl

end Definition

namespace Reference

variable {ι : Type} [DecidableEq ι]

theorem foldl_addCaller (r : Reference) (more : List Site) :
    more.foldl addCaller r = { r with callers := addAllIfAbsent r.callers more } := by
  induction more generalizing r with
  | nil => rfl
  | cons caller more ih => exact ih (r.addCaller caller)

theorem applies_mergeInto :
    Applies location absorb .referencesApart (mergeInto : ι → ι → Merging ι Reference Unit) := by
  intro records i j
  rw [mergeInto, on_demandOnePlace_bind, on_addItems, foldl_addCaller, absorb]

end Reference

/-! ## Tables of a card -/

namespace Card

/-- Two definitions of one place that are merged into a card one after the other are merged with
each other. -/
theorem addDefinition_addDefinition (c : Card) {d e : Definition} (h : d.location = e.location) :
    (c.addDefinition d).addDefinition e = c.addDefinition (d.joined [e]) := by
  have hmerged (x : Definition) : (x.absorb d).absorb e = x.absorb (d.joined [e]) := by
    rw [← Definition.sums.absorb_eq, Definition.sums.absorb_left, Definition.sums.absorb_right]
  simp only [addDefinition, ← h, OrderedMap.modify_modify, hmerged]
  rfl

/-- Two references of one place that are merged into a card one after the other are merged with
each other. -/
theorem addReference_addReference (c : Card) {r s : Reference} (h : r.location = s.location) :
    (c.addReference r).addReference s = c.addReference (r.joined [s]) := by
  have hmerged (x : Reference) : (x.absorb r).absorb s = x.absorb (r.joined [s]) := by
    rw [← Reference.sums.absorb_eq, Reference.sums.absorb_left, Reference.sums.absorb_right]
  simp only [addReference, ← h, OrderedMap.modify_modify, hmerged]
  rfl

end Card

/-- `Definition.mergeInto` and `Reference.mergeInto` are `Lawful`. In the tables of a card
(`addDefinition`, `addReference`), two records of one place that are merged one after the other are
merged with each other (`joined`), and a record that is merged twice is the same as once. -/
theorem merge_laws (ι : Type) [DecidableEq ι] :
    Lawful Definition.location Definition.joined .definitionsApart
      (Definition.mergeInto : ι → ι → Merging ι Definition Unit) ∧
    Lawful Reference.location Reference.joined .referencesApart
      (Reference.mergeInto : ι → ι → Merging ι Reference Unit) ∧
    (∀ (card : Card) (d e : Definition), d.location = e.location →
      (card.addDefinition d).addDefinition e = card.addDefinition (d.joined [e]) ∧
      (card.addDefinition d).addDefinition d = card.addDefinition d) ∧
    ∀ (card : Card) (r s : Reference), r.location = s.location →
      (card.addReference r).addReference s = card.addReference (r.joined [s]) ∧
      (card.addReference r).addReference r = card.addReference r := by
  refine ⟨Definition.applies_mergeInto.lawful Definition.sums,
    Reference.applies_mergeInto.lawful Reference.sums, ?definitions, ?references⟩
  case definitions =>
    intro card d e h
    refine ⟨card.addDefinition_addDefinition h, ?_⟩
    rw [card.addDefinition_addDefinition rfl, ← Definition.sums.absorb_eq, d.absorb_self]
  case references =>
    intro card r s h
    refine ⟨card.addReference_addReference h, ?_⟩
    rw [card.addReference_addReference rfl, ← Reference.sums.absorb_eq, r.absorb_self]

open Linked (lineAt)

/-- Three definitions of one place, with calls that repeat, and one of another place. -/
def fourDefinitions : Fin 4 → Definition
  | 0 => ⟨lineAt 1, none, [⟨.function "g", lineAt 2⟩], some ⟨"old", "", ""⟩, some "def f(): g()"⟩
  | 1 => ⟨lineAt 1, some "Reads.", [⟨.function "h", lineAt 3⟩, ⟨.function "g", lineAt 2⟩,
      ⟨.function "h", lineAt 3⟩], none, none⟩
  | 2 => ⟨lineAt 1, some "Writes.", [⟨.function "k", lineAt 4⟩, ⟨.function "h", lineAt 3⟩],
      some ⟨"new", "", ""⟩, none⟩
  | 3 => .bare (lineAt 5)

/-- Three references of one place, the first of which names a caller twice, and one of another
place. -/
def fourReferences : Fin 4 → Reference
  | 0 => ⟨lineAt 1, [⟨.function "g", lineAt 2⟩, ⟨.function "g", lineAt 2⟩]⟩
  | 1 => ⟨lineAt 1, [⟨.function "h", lineAt 3⟩]⟩
  | 2 => ⟨lineAt 1, [⟨.function "g", lineAt 2⟩, ⟨.function "k", lineAt 4⟩]⟩
  | 3 => .bare (lineAt 5)

theorem merge_laws_fourRecords :
    (∃ left right,
      (do Definition.mergeInto 0 1; Definition.mergeInto 0 2 : Merging (Fin 4) Definition Unit).on
        fourDefinitions = (.ok (), left) ∧
      (do Definition.mergeInto 1 2; Definition.mergeInto 0 1 : Merging (Fin 4) Definition Unit).on
        fourDefinitions = (.ok (), right) ∧
      left 0 = right 0 ∧
      left 0 = ⟨lineAt 1, some "Reads.", [⟨.function "g", lineAt 2⟩, ⟨.function "h", lineAt 3⟩,
        ⟨.function "k", lineAt 4⟩], some ⟨"new", "", ""⟩, some "def f(): g()"⟩) ∧
    (Definition.mergeInto 0 3).on fourDefinitions = (.error .definitionsApart, fourDefinitions) ∧
    (Reference.mergeInto 0 2).on fourReferences =
      (.ok (), setAt fourReferences 0 ⟨lineAt 1, [⟨.function "g", lineAt 2⟩,
        ⟨.function "g", lineAt 2⟩, ⟨.function "k", lineAt 4⟩]⟩) ∧
    (Card.empty.addDefinition (fourDefinitions 1)).addDefinition (fourDefinitions 2) =
      Card.empty.addDefinition ((fourDefinitions 1).joined [fourDefinitions 2]) := by
  obtain ⟨hdefinitions, hreferences, hcard, -⟩ := merge_laws (Fin 4)
  obtain ⟨left, right, hleft, hright, hsame, hjoined⟩ :=
    hdefinitions.assoc fourDefinitions 0 1 2 (by decide) rfl rfl
  refine ⟨⟨left, right, hleft, hright, hsame, hjoined.trans (by decide +kernel)⟩,
    hdefinitions.refused fourDefinitions 0 3 (by decide +kernel), ?_,
    (hcard Card.empty (fourDefinitions 1) (fourDefinitions 2) rfl).1⟩
  rw [hreferences.once fourReferences 0 2 rfl]
  have hmerged : (fourReferences 0).joined [fourReferences 2] = ⟨lineAt 1,
      [⟨.function "g", lineAt 2⟩, ⟨.function "g", lineAt 2⟩, ⟨.function "k", lineAt 4⟩]⟩ := by
    decide +kernel
  rw [hmerged]

end CallAtlas
