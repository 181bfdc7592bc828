import CallAtlas.OrderedMap
import Mathlib.Data.List.Basic

/-! # Entries of maps

`get?` tells the entries of a map (`get?_eq_some_iff`), and records that are put one after the other
under keys of their own become the entries in the same order (`entries_foldl_insert`). So a map
whose values know their keys is its list of values (`foldl_insert_values`, `filter_values`). Of
several values that a key is set to, the last one counts (`get?_foldl_insert`), so setting keys a
second time changes nothing (`foldl_insert_again`). -/

namespace CallAtlas.OrderedMap

variable {κ α : Type} [DecidableEq κ]

theorem Entries.get?_eq_some_iff {key : κ} {a : α} {es : List (κ × α)}
    (h : (es.map Prod.fst).Nodup) : get? key es = some a ↔ (key, a) ∈ es := by
  induction es with
  | nil => simp [get?]
  | cons e rest ih =>
    obtain ⟨k, b⟩ := e
    obtain ⟨hk, hrest⟩ := List.nodup_cons.1 h
    by_cases hkey : k = key
    · subst hkey
      have : (k, a) ∉ rest := fun hm => hk (List.mem_map.2 ⟨_, hm, rfl⟩)
      simp [get?, this, eq_comm]
    · have hkey' : ¬ key = k := fun e => hkey e.symm
      simp only [get?, hkey, if_false, List.mem_cons, Prod.mk.injEq, hkey', false_and, false_or]
      exact ih hrest

theorem Entries.insert_of_not_mem {key : κ} (a : α) {es : List (κ × α)}
    (h : key ∉ es.map Prod.fst) : insert key a es = es ++ [(key, a)] := by
  induction es with
  | nil => rfl
  | cons e rest ih =>
    obtain ⟨k, b⟩ := e
    simp only [List.map_cons, List.mem_cons, not_or] at h
    rw [insert, if_neg fun e => h.1 e.symm, ih h.2]
    rfl

theorem get?_eq_some_iff {m : OrderedMap κ α} {key : κ} {a : α} :
    m.get? key = some a ↔ (key, a) ∈ m.entries :=
  Entries.get?_eq_some_iff m.nodup

theorem mem_keys_iff {m : OrderedMap κ α} {key : κ} : key ∈ m.keys ↔ ∃ a, m.get? key = some a := by
  rw [← contains_iff, contains, Option.isSome_iff_exists]

theorem mem_keys_insert {m : OrderedMap κ α} {key k : κ} {a : α} :
    k ∈ (m.insert key a).keys ↔ k ∈ m.keys ∨ k = key := by
  rw [keys_insert]
  split
  · next h => exact ⟨.inl, fun hk => hk.elim id fun e => e ▸ h⟩
  · rw [List.mem_append, List.mem_singleton]

theorem entries_insert_of_not_mem {m : OrderedMap κ α} {key : κ} (a : α) (h : key ∉ m.keys) :
    (m.insert key a).entries = m.entries ++ [(key, a)] :=
  Entries.insert_of_not_mem a h

theorem Entries.insert_of_get? {key : κ} {a : α} {es : List (κ × α)} (h : get? key es = some a) :
    insert key a es = es := by
  induction es with
  | nil => cases h
  | cons e rest ih =>
    obtain ⟨k, b⟩ := e
    rw [get?] at h
    rw [insert]
    split at h
    · next hk => rw [if_pos hk, Option.some.inj h]
    · next hk => rw [if_neg hk, ih h]

/-- Setting a key to the value that it has changes nothing. -/
theorem insert_of_get? {m : OrderedMap κ α} {key : κ} {a : α} (h : m.get? key = some a) :
    m.insert key a = m :=
  ext (Entries.insert_of_get? h)

theorem entries_erase (m : OrderedMap κ α) (key : κ) :
    (m.erase key).entries = m.entries.filter fun e => decide (e.1 ≠ key) := by
  show Entries.erase key m.entries = _
  induction m.entries with
  | nil => rfl
  | cons e rest ih =>
    obtain ⟨k, a⟩ := e
    unfold Entries.erase
    split <;> simp_all

/-- A key is looked up as the entry that has it. -/
theorem filter_entries (m : OrderedMap κ α) (key : κ) :
    m.entries.filter (fun e => decide (e.1 = key)) = ((m.get? key).map fun a => (key, a)).toList := by
  obtain ⟨entries, hnodup⟩ := m
  show _ = ((Entries.get? key entries).map fun a => (key, a)).toList
  induction entries with
  | nil => rfl
  | cons e rest ih =>
    obtain ⟨k, b⟩ := e
    obtain ⟨hk, hrest⟩ := List.nodup_cons.1 hnodup
    rw [Entries.get?]
    by_cases hkey : k = key
    · have hnone : Entries.get? key rest = none := Entries.get?_eq_none_iff.2 (hkey ▸ hk)
      rw [List.filter_cons_of_pos (by simp [hkey]), ih hrest, hnone, if_pos hkey, hkey]
      rfl
    · rw [List.filter_cons_of_neg (by simp [hkey]), ih hrest, if_neg hkey]

theorem entries_eq_filterMap (m : OrderedMap κ α) :
    m.entries = m.keys.filterMap fun k => (m.get? k).map fun a => (k, a) := by
  rw [keys, List.filterMap_map]
  conv => lhs; rw [← List.filterMap_some (l := m.entries)]
  refine List.filterMap_congr fun e he => ?_
  simp [get?_eq_some_iff.2 he]

/-- A map is told by its keys in their order and by its values. -/
theorem ext_of_get? {m n : OrderedMap κ α} (hkeys : m.keys = n.keys)
    (hget : ∀ k, m.get? k = n.get? k) : m = n := by
  apply ext
  rw [entries_eq_filterMap m, entries_eq_filterMap n, hkeys]
  simp only [hget]

/-- Of two values that a key is set to, the second one counts. -/
theorem insert_insert (m : OrderedMap κ α) (key : κ) (a b : α) :
    (m.insert key a).insert key b = m.insert key b := by
  refine ext_of_get? ?_ fun k => ?_
  · rw [keys_insert (m.insert key a), if_pos (mem_keys_insert.2 (.inr rfl)), keys_insert, keys_insert]
  · rw [get?_insert, get?_insert, get?_insert]
    split <;> rfl

theorem modify_modify (m : OrderedMap κ α) (key : κ) (initial : α) (f g : α → α) :
    (m.modify key initial f).modify key initial g = m.modify key initial fun a => g (f a) := by
  unfold modify
  rw [get?_insert_self, Option.getD_some, insert_insert]

/-- Of several values that a key is set to, the last one counts. -/
theorem get?_foldl_insert (es : List (κ × α)) (m : OrderedMap κ α) (k : κ) :
    (es.foldl (fun m e => m.insert e.1 e.2) m).get? k =
      ((es.reverse.find? fun e => decide (e.1 = k)).map Prod.snd).or (m.get? k) := by
  induction es generalizing m with
  | nil => simp
  | cons e es ih =>
    rw [List.foldl_cons, ih, get?_insert, List.reverse_cons, List.find?_append]
    cases es.reverse.find? fun e => decide (e.1 = k) with
    | some _ => rfl
    | none => by_cases hk : e.1 = k <;> simp [hk]

theorem mem_keys_foldl_insert {es : List (κ × α)} {m : OrderedMap κ α} {k : κ} :
    k ∈ (es.foldl (fun m e => m.insert e.1 e.2) m).keys ↔ k ∈ m.keys ∨ ∃ e ∈ es, e.1 = k := by
  induction es generalizing m with
  | nil => simp
  | cons e es ih =>
    rw [List.foldl_cons, ih, mem_keys_insert, or_assoc, List.exists_mem_cons_iff, eq_comm (a := k)]

theorem keys_foldl_insert_of_mem {es : List (κ × α)} {m : OrderedMap κ α}
    (h : ∀ e ∈ es, e.1 ∈ m.keys) : (es.foldl (fun m e => m.insert e.1 e.2) m).keys = m.keys := by
  induction es generalizing m with
  | nil => rfl
  | cons e es ih =>
    have hkeys : (m.insert e.1 e.2).keys = m.keys := by rw [keys_insert, if_pos (h e (.head _))]
    rw [List.foldl_cons, ih fun e' he' => hkeys ▸ h e' (.tail _ he'), hkeys]

/-- Setting keys a second time changes nothing. -/
theorem foldl_insert_again (es : List (κ × α)) (m : OrderedMap κ α) :
    es.foldl (fun m e => m.insert e.1 e.2) (es.foldl (fun m e => m.insert e.1 e.2) m) =
      es.foldl (fun m e => m.insert e.1 e.2) m := by
  refine ext_of_get? (keys_foldl_insert_of_mem fun e he => ?_) fun k => ?_
  · exact mem_keys_foldl_insert.2 (.inr ⟨e, he, rfl⟩)
  · rw [get?_foldl_insert, get?_foldl_insert, ← Option.or_assoc, Option.or_self]

theorem get?_foldl_insert_const (keys : List κ) (a : α) (m : OrderedMap κ α) (k : κ) :
    (keys.foldl (fun m key => m.insert key a) m).get? k =
      if k ∈ keys then some a else m.get? k := by
  induction keys generalizing m with
  | nil => rfl
  | cons key keys ih =>
    rw [List.foldl_cons, ih, get?_insert]
    by_cases hk : k = key
    · simp [hk]
    · simp [hk, Ne.symm hk]

theorem get?_foldl_erase (keys : List κ) (m : OrderedMap κ α) (k : κ) :
    (keys.foldl (fun m key => m.erase key) m).get? k = if k ∈ keys then none else m.get? k := by
  induction keys generalizing m with
  | nil => rfl
  | cons key keys ih =>
    rw [List.foldl_cons, ih, get?_erase]
    by_cases hk : k = key
    · simp [hk]
    · simp [hk, Ne.symm hk]

/-- Records with distinct keys that are new become entries in their order. -/
theorem entries_foldl_insert {β : Type} (key : β → κ) (val : β → α) (items : List β)
    (m : OrderedMap κ α) (h : (m.keys ++ items.map key).Nodup) :
    (items.foldl (fun m b => m.insert (key b) (val b)) m).entries =
      m.entries ++ items.map fun b => (key b, val b) := by
  induction items generalizing m with
  | nil => simp
  | cons b items ih =>
    obtain ⟨hm, hitems, hdis⟩ := List.nodup_append.1 h
    have hb : key b ∉ m.keys := fun hm => hdis _ hm _ (.head _) rfl
    have hkeys : (m.insert (key b) (val b)).keys = m.keys ++ [key b] := by
      rw [keys_insert, if_neg hb]
    rw [List.foldl_cons, ih, entries_insert_of_not_mem _ hb, List.map_cons, List.append_assoc]
    · rfl
    · rw [hkeys, List.append_assoc]
      exact h

theorem foldl_insert_values (key : α → κ) {m : OrderedMap κ α}
    (h : ∀ e ∈ m.entries, key e.2 = e.1) :
    m.values.foldl (fun acc a => acc.insert (key a) a) .empty = m := by
  have hkeys : m.values.map key = m.keys := by
    rw [values, keys, List.map_map]
    exact List.map_congr_left h
  have hentries : m.values.map (fun a => (key a, a)) = m.entries := by
    conv => rhs; rw [← List.map_id m.entries]
    rw [values, List.map_map]
    exact List.map_congr_left fun e he => Prod.ext (h e he) rfl
  apply ext
  rw [entries_foldl_insert key (fun a => a), hentries]
  · rfl
  · rw [hkeys]
    exact m.nodup_keys

/-- Values that are put under keys of their own are found there. -/
theorem key_of_get?_foldl_insert (key : α → κ) (items : List α) {m : OrderedMap κ α}
    (h : ∀ k a, m.get? k = some a → key a = k) :
    ∀ k a, (items.foldl (fun m a => m.insert (key a) a) m).get? k = some a → key a = k := by
  induction items generalizing m with
  | nil => exact h
  | cons b items ih =>
    refine ih fun k a hk => ?_
    rw [get?_insert] at hk
    split at hk
    · next hb => rw [← Option.some.inj hk, hb]
    · exact h k a hk

theorem Entries.filter_values (key : α → κ) {es : List (κ × α)} (hnodup : (es.map Prod.fst).Nodup)
    (h : ∀ e ∈ es, key e.2 = e.1) (k : κ) :
    (es.map Prod.snd).filter (fun a => decide (key a = k)) = (get? k es).toList := by
  induction es with
  | nil => rfl
  | cons e rest ih =>
    obtain ⟨k', a⟩ := e
    obtain ⟨hk', hrest⟩ := List.nodup_cons.1 hnodup
    have ha : key a = k' := h (k', a) (.head _)
    have hih := ih hrest fun e he => h e (.tail _ he)
    rw [List.map_cons, get?]
    by_cases hk : k' = k
    · have hnone : get? k rest = none := get?_eq_none_iff.2 (hk ▸ hk')
      rw [List.filter_cons_of_pos (by simp [ha, hk]), hih, hnone, if_pos hk]
      rfl
    · rw [List.filter_cons_of_neg (by simp [ha, hk]), hih, if_neg hk]

/-- In a map whose values know their keys, only the value of a key knows it. -/
theorem filter_values (key : α → κ) {m : OrderedMap κ α} (h : ∀ k a, m.get? k = some a → key a = k)
    (k : κ) : m.values.filter (fun a => decide (key a = k)) = (m.get? k).toList :=
  Entries.filter_values key m.nodup (fun e he => h e.1 e.2 (get?_eq_some_iff.2 he)) k

/-- In a map whose values know their keys, a key is looked up as the value that knows it. -/
theorem find?_values (key : α → κ) {m : OrderedMap κ α} (h : ∀ k a, m.get? k = some a → key a = k)
    (k : κ) : m.values.find? (fun a => decide (key a = k)) = m.get? k := by
  rw [← List.head?_filter, filter_values key h]
  cases m.get? k <;> rfl

/-- Values with keys of their own, each put under its key, are the values in their order. -/
theorem values_foldl_insert (key : α → κ) {items : List α} (h : (items.map key).Nodup) :
    (items.foldl (fun m a => m.insert (key a) a) (.empty : OrderedMap κ α)).values = items := by
  rw [values, entries_foldl_insert key (fun a => a) items .empty h]
  simp [OrderedMap.empty, Function.comp_def]

theorem get?_mapValues {β : Type} (m : OrderedMap κ α) (f : κ → α → β) (k : κ) :
    (m.mapValues f).get? k = (m.get? k).map (f k) := by
  have hentries : ∀ es : List (κ × α),
      Entries.get? k (es.map fun e => (e.1, f e.1 e.2)) = (Entries.get? k es).map (f k) := by
    intro es
    induction es with
    | nil => rfl
    | cons e rest ih =>
      obtain ⟨k', a⟩ := e
      rw [List.map_cons, Entries.get?, Entries.get?, ih]
      split
      · next hk => rw [hk]; rfl
      · rfl
  exact hentries m.entries

end CallAtlas.OrderedMap
