/-! # Maps that keep the order of insertion

A map is a list of entries whose keys are distinct. Setting a key that is present keeps its place
and a new key goes to the end. `get?` and `keys` are the views; the lemmas below say what each
operation does to them. -/

namespace CallAtlas

/-- A map that remembers the order in which its keys were first set. -/
structure OrderedMap (κ α : Type) where
  /-- The entries, oldest first. -/
  entries : List (κ × α)
  nodup : (entries.map Prod.fst).Nodup
  deriving DecidableEq, Repr

namespace OrderedMap

/-! ## Lists of entries -/

namespace Entries

variable {κ α : Type} [DecidableEq κ]

/-- The value of a key in a list of entries. -/
def get? (key : κ) : List (κ × α) → Option α
  | [] => none
  | (k, a) :: rest => if k = key then some a else get? key rest

/-- Sets a key in a list of entries. -/
def insert (key : κ) (a : α) : List (κ × α) → List (κ × α)
  | [] => [(key, a)]
  | (k, b) :: rest => if k = key then (k, a) :: rest else (k, b) :: insert key a rest

/-- Removes a key from a list of entries. -/
def erase (key : κ) : List (κ × α) → List (κ × α)
  | [] => []
  | (k, a) :: rest => if k = key then erase key rest else (k, a) :: erase key rest

theorem keys_insert (key : κ) (a : α) (es : List (κ × α)) :
    (insert key a es).map Prod.fst =
      if key ∈ es.map Prod.fst then es.map Prod.fst else es.map Prod.fst ++ [key] := by
  induction es with
  | nil => simp [insert]
  | cons e rest ih =>
    obtain ⟨k, b⟩ := e
    by_cases h : k = key
    · simp [insert, h]
    · have h' : ¬ key = k := fun e => h e.symm
      simp only [insert, h, if_false, List.map_cons, ih, List.mem_cons, h', false_or]
      split <;> simp

theorem nodup_insert (key : κ) (a : α) {es : List (κ × α)} (h : (es.map Prod.fst).Nodup) :
    ((insert key a es).map Prod.fst).Nodup := by
  rw [keys_insert]
  split
  · exact h
  · next hk =>
    rw [List.nodup_append]
    exact ⟨h, by simp, fun x hx y hy hxy => hk (by
      rw [List.mem_singleton] at hy; rw [← hy, ← hxy]; exact hx)⟩

theorem erase_sublist (key : κ) (es : List (κ × α)) : (erase key es).Sublist es := by
  induction es with
  | nil => exact .slnil
  | cons e rest ih =>
    obtain ⟨k, b⟩ := e
    rw [erase]
    split
    · exact ih.cons _
    · exact ih.cons_cons _

theorem nodup_erase (key : κ) {es : List (κ × α)} (h : (es.map Prod.fst).Nodup) :
    ((erase key es).map Prod.fst).Nodup :=
  h.sublist ((erase_sublist key es).map _)

theorem get?_insert (key k : κ) (a : α) (es : List (κ × α)) :
    get? k (insert key a es) = if key = k then some a else get? k es := by
  induction es with
  | nil => simp [insert, get?]
  | cons e rest ih =>
    obtain ⟨k', b⟩ := e
    by_cases h : k' = key
    · subst h
      by_cases hk : k' = k <;> simp [insert, get?, hk]
    · rw [insert, if_neg h]
      by_cases hk : k' = k
      · have hne : ¬ key = k := fun e => h (hk.trans e.symm)
        simp [get?, hk, hne]
      · simp [get?, hk, ih]

theorem get?_erase (key k : κ) (es : List (κ × α)) :
    get? k (erase key es) = if key = k then none else get? k es := by
  induction es with
  | nil => simp [erase, get?]
  | cons e rest ih =>
    obtain ⟨k', b⟩ := e
    by_cases h : k' = key
    · subst h
      rw [erase, if_pos rfl, ih]
      by_cases hk : k' = k <;> simp [get?, hk]
    · rw [erase, if_neg h]
      by_cases hk : k' = k
      · have hne : ¬ key = k := fun e => h (hk.trans e.symm)
        simp [get?, hk, hne]
      · simp [get?, hk, ih]

theorem get?_eq_none_iff {key : κ} {es : List (κ × α)} :
    get? key es = none ↔ key ∉ es.map Prod.fst := by
  induction es with
  | nil => simp [get?]
  | cons e rest ih =>
    obtain ⟨k, b⟩ := e
    by_cases h : k = key
    · simp [get?, h]
    · have h' : ¬ key = k := fun e => h e.symm
      simp only [get?, h, if_false, ih, List.map_cons, List.mem_cons, h', false_or]

end Entries

/-! ## Maps -/

variable {κ α : Type}

@[ext]
theorem ext {m n : OrderedMap κ α} (h : m.entries = n.entries) : m = n := by
  cases m; cases n; cases h; rfl

/-- The map without keys. -/
def empty : OrderedMap κ α := ⟨[], by simp⟩

instance : EmptyCollection (OrderedMap κ α) := ⟨empty⟩

instance : Inhabited (OrderedMap κ α) := ⟨empty⟩

/-- The keys, oldest first. -/
def keys (m : OrderedMap κ α) : List κ := m.entries.map Prod.fst

/-- The values in the order of their keys. -/
def values (m : OrderedMap κ α) : List α := m.entries.map Prod.snd

/-- The number of keys. -/
def size (m : OrderedMap κ α) : Nat := m.entries.length

theorem nodup_keys (m : OrderedMap κ α) : m.keys.Nodup := m.nodup

variable [DecidableEq κ]

/-- The value of a key. -/
def get? (m : OrderedMap κ α) (key : κ) : Option α := Entries.get? key m.entries

/-- Whether a key is set. -/
def contains (m : OrderedMap κ α) (key : κ) : Bool := (m.get? key).isSome

/-- The map with a key set: in its place if it was set before, else at the end. -/
def insert (m : OrderedMap κ α) (key : κ) (a : α) : OrderedMap κ α :=
  ⟨Entries.insert key a m.entries, Entries.nodup_insert key a m.nodup⟩

/-- The map without a key. -/
def erase (m : OrderedMap κ α) (key : κ) : OrderedMap κ α :=
  ⟨Entries.erase key m.entries, Entries.nodup_erase key m.nodup⟩

/-- Changes the value of a key, which is the given one if the key was not set. -/
def modify (m : OrderedMap κ α) (key : κ) (initial : α) (f : α → α) : OrderedMap κ α :=
  m.insert key (f ((m.get? key).getD initial))

/-- Changes every value, given its key. -/
def mapValues {β : Type} (m : OrderedMap κ α) (f : κ → α → β) : OrderedMap κ β :=
  ⟨m.entries.map fun e => (e.1, f e.1 e.2), by
    have h := m.nodup
    rw [List.map_map]
    exact h⟩

/-- Sets the entries of a list one after the other. -/
def ofList (es : List (κ × α)) : OrderedMap κ α := es.foldl (fun m e => m.insert e.1 e.2) empty

@[simp]
theorem get?_empty (k : κ) : (empty : OrderedMap κ α).get? k = none := rfl

theorem get?_insert (m : OrderedMap κ α) (key k : κ) (a : α) :
    (m.insert key a).get? k = if key = k then some a else m.get? k :=
  Entries.get?_insert key k a m.entries

@[simp]
theorem get?_insert_self (m : OrderedMap κ α) (key : κ) (a : α) :
    (m.insert key a).get? key = some a := by
  simp [get?_insert]

theorem get?_erase (m : OrderedMap κ α) (key k : κ) :
    (m.erase key).get? k = if key = k then none else m.get? k :=
  Entries.get?_erase key k m.entries

theorem get?_modify (m : OrderedMap κ α) (key k : κ) (initial : α) (f : α → α) :
    (m.modify key initial f).get? k =
      if key = k then some (f ((m.get? key).getD initial)) else m.get? k :=
  get?_insert m key k _

theorem keys_insert (m : OrderedMap κ α) (key : κ) (a : α) :
    (m.insert key a).keys = if key ∈ m.keys then m.keys else m.keys ++ [key] :=
  Entries.keys_insert key a m.entries

theorem get?_eq_none_iff {m : OrderedMap κ α} {key : κ} : m.get? key = none ↔ key ∉ m.keys :=
  Entries.get?_eq_none_iff

theorem contains_iff {m : OrderedMap κ α} {key : κ} : m.contains key = true ↔ key ∈ m.keys := by
  rw [contains, ← Decidable.not_iff_not, ← get?_eq_none_iff]
  cases m.get? key <;> simp

end OrderedMap

end CallAtlas
