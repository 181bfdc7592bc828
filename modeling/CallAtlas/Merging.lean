import CallAtlas.Definition

/-! # Merging in place

Records are held under names. A merge changes the record of one name step by step and reads the
record of another name as it is at each step; the two names may be the same. -/

namespace CallAtlas

/-- Why two records do not merge. -/
inductive MergeError where
  | definitionsApart
  | referencesApart
  deriving DecidableEq, Repr

def MergeError.message : MergeError → Text
  | .definitionsApart => "Cannot merge definitions with different PureDefinition locations."
  | .referencesApart => "Cannot merge references with different PureReference locations."

/-- Records under names, one of which has become another record. -/
def setAt {ι α : Type} [DecidableEq ι] (records : ι → α) (i : ι) (a : α) : ι → α :=
  fun k => if k = i then a else records k

/-- Work on records under names, which may fail; a failure keeps the changes made before. -/
abbrev Merging (ι α : Type) := ExceptT MergeError (StateM (ι → α))

namespace Merging

variable {ι α β : Type} [DecidableEq ι]

/-- The outcome of the work, and the records after it. -/
def on (m : Merging ι α β) (records : ι → α) : Except MergeError β × (ι → α) := m.run.run records

/-- The record of a name. -/
def look (i : ι) : Merging ι α α := return (← get) i

/-- Changes the record of a name. -/
def alter (i : ι) (f : α → α) : Merging ι α Unit :=
  modify fun records => setAt records i (f (records i))

/-- Fails unless the records of two names stand at one place. -/
def demandOnePlace (place : α → Location) (apart : MergeError) (i j : ι) : Merging ι α Unit := do
  unless place (← look i) = place (← look j) do throw apart

/-- Adds the items of the record `j` to the record `i`, one after the other. -/
def addItems (items : α → List Site) (add : α → Site → α) (i j : ι) : Merging ι α Unit := do
  (items (← look j)).forM fun item => alter i (add · item)

end Merging

open Merging

variable {ι : Type} [DecidableEq ι]

namespace Definition

/-- Gives the definition `i` the doc of the definition `j` if it has none. -/
def takeDoc (i j : ι) : Merging ι Definition Unit := do
  if (← look i).doc.isNone then
    let doc := (← look j).doc
    alter i fun d => { d with doc := doc }

/-- Gives the definition `i` the note of the definition `j` if that has one. -/
def takeNote (i j : ι) : Merging ι Definition Unit := do
  if (← look j).note.isSome then
    let note := (← look j).note
    alter i (·.setNote note)

/-- Merges the definition `j` into the definition `i`. -/
def mergeInto (i j : ι) : Merging ι Definition Unit := do
  demandOnePlace location .definitionsApart i j
  takeDoc i j
  addItems calls addCall i j
  takeNote i j

end Definition

/-- Merges the reference `j` into the reference `i`. -/
def Reference.mergeInto (i j : ι) : Merging ι Reference Unit := do
  demandOnePlace location .referencesApart i j
  addItems callers addCaller i j

/-! ## Records after a change -/

section SetAt

variable {α β : Type} {records : ι → α} {i : ι}

@[simp]
theorem setAt_self (records : ι → α) (i : ι) (a : α) : setAt records i a i = a := if_pos rfl

theorem setAt_of_ne {k : ι} (h : k ≠ i) (a : α) : setAt records i a k = records k := if_neg h

@[simp]
theorem setAt_setAt (records : ι → α) (i : ι) (a b : α) :
    setAt (setAt records i a) i b = setAt records i b := by
  funext k
  unfold setAt
  split <;> rfl

@[simp]
theorem setAt_same (records : ι → α) (i : ι) : setAt records i (records i) = records := by
  funext k
  unfold setAt
  split
  · next h => rw [h]
  · rfl

/-- What a change leaves as it is can be read as before, also from the changed record. -/
theorem read_setAt {f : α → β} {a : α} (hf : f a = f (records i)) (j : ι) :
    f (setAt records i a j) = f (records j) := by
  by_cases hj : j = i
  · rw [hj, setAt_self, hf]
  · rw [setAt_of_ne hj]

end SetAt

end CallAtlas
