import CallAtlas.Symbol

/-! # Definitions and references

A definition knows the calls made inside it and a reference knows the definitions it stands in.
Both can absorb what another record of the same place knows. -/

namespace CallAtlas

/-- A list with an item added at its end unless it is there already. -/
def addIfAbsent {α : Type} [DecidableEq α] (items : List α) (a : α) : List α :=
  if a ∈ items then items else items ++ [a]

/-- A list with every item of another added in order unless it is there already. -/
def addAllIfAbsent {α : Type} [DecidableEq α] (items more : List α) : List α :=
  more.foldl addIfAbsent items

/-- What a reader of the code noted about a definition. -/
structure Note where
  description : Text
  vulnerabilities : Text
  controlFlow : Text
  deriving DecidableEq, Repr

/-- A place where a symbol is defined. -/
structure Definition where
  location : Location
  doc : Option Text
  calls : List Site
  note : Option Note
  source : Option Text
  deriving DecidableEq, Repr

/-- A place where a symbol is called. -/
structure Reference where
  location : Location
  callers : List Site
  deriving DecidableEq, Repr

namespace Definition

/-- A definition of which only the place is known. -/
def bare (location : Location) : Definition := ⟨location, none, [], none, none⟩

/-- Adds a call made inside the definition. -/
def addCall (d : Definition) (call : Site) : Definition :=
  { d with calls := addIfAbsent d.calls call }

/-- Sets the note. -/
def setNote (d : Definition) (note : Option Note) : Definition := { d with note := note }

/-- What `d` knows together with what `e` knows: a doc that is set stays, calls are joined, and a
newer note replaces the old one. The source text stays that of `d`. -/
def absorb (d e : Definition) : Definition :=
  { d with
    doc := d.doc.or e.doc
    calls := addAllIfAbsent d.calls e.calls
    note := e.note.or d.note }

end Definition

namespace Reference

/-- A reference of which only the place is known. -/
def bare (location : Location) : Reference := ⟨location, []⟩

/-- Adds a definition in which the call stands. -/
def addCaller (r : Reference) (caller : Site) : Reference :=
  { r with callers := addIfAbsent r.callers caller }

/-- What `r` knows together with what `s` knows. -/
def absorb (r s : Reference) : Reference :=
  { r with callers := addAllIfAbsent r.callers s.callers }

end Reference

/-! ## Adding to lists -/

theorem mem_addIfAbsent {α : Type} [DecidableEq α] {items : List α} {a b : α} :
    b ∈ addIfAbsent items a ↔ b ∈ items ∨ b = a := by
  unfold addIfAbsent
  split
  · next h => exact ⟨.inl, fun hb => hb.elim id fun e => e ▸ h⟩
  · simp

theorem nodup_addIfAbsent {α : Type} [DecidableEq α] {items : List α} (h : items.Nodup) (a : α) :
    (addIfAbsent items a).Nodup := by
  unfold addIfAbsent
  split
  · exact h
  · next ha =>
    rw [List.nodup_append]
    exact ⟨h, by simp, fun x hx y hy hxy => ha (by
      rw [List.mem_singleton] at hy; rw [← hy, ← hxy]; exact hx)⟩

theorem mem_addAllIfAbsent {α : Type} [DecidableEq α] {items more : List α} {b : α} :
    b ∈ addAllIfAbsent items more ↔ b ∈ items ∨ b ∈ more := by
  induction more generalizing items with
  | nil => simp [addAllIfAbsent]
  | cons a more ih =>
    have : addAllIfAbsent items (a :: more) = addAllIfAbsent (addIfAbsent items a) more := rfl
    rw [this, ih, mem_addIfAbsent, List.mem_cons]
    exact or_assoc

theorem nodup_addAllIfAbsent {α : Type} [DecidableEq α] {items : List α} (h : items.Nodup)
    (more : List α) : (addAllIfAbsent items more).Nodup := by
  induction more generalizing items with
  | nil => exact h
  | cons a more ih => exact ih (nodup_addIfAbsent h a)

theorem addAllIfAbsent_of_subset {α : Type} [DecidableEq α] {items more : List α}
    (h : ∀ a ∈ more, a ∈ items) : addAllIfAbsent items more = items := by
  induction more with
  | nil => rfl
  | cons a more ih =>
    have ha : addIfAbsent items a = items := if_pos (h a (.head _))
    rw [addAllIfAbsent, List.foldl_cons, ha]
    exact ih fun b hb => h b (.tail _ hb)

end CallAtlas
