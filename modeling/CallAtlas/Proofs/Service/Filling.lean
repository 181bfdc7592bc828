import CallAtlas.Proofs.Service.Requests
import CallAtlas.Proofs.Todo.Pending

/-! # Filling the list of tasks

The definitions of an index are those that can be looked up (`mem_allSites`). When some of them are
put on the list of tasks, a definition gets a new task iff it is wanted and has none yet
(`mem_tasks_foldl_enqueue`), and the list stays consistent. -/

namespace CallAtlas.Service

variable {ix : Index} {site : Site} {list : TodoList Site Note Nat} {serial : Nat}
  {skipNoted : Bool} {t : Task Site Note Nat}

/-! ## The definitions of an index -/

theorem mem_items_iff {s : Symbol} {i : Info} : (s, i) ∈ ix.items ↔ ix.info? s = some i := by
  cases ix with
  | listed ix => exact OrderedMap.get?_eq_some_iff.symm
  | linked ix =>
    simp only [Index.items, Linked.items, List.mem_map, Prod.mk.injEq, Index.info?, Linked.info?,
      Option.map_eq_some_iff, OrderedMap.get?_eq_some_iff]
    constructor
    · rintro ⟨⟨t, c⟩, hc, rfl, rfl⟩
      exact ⟨c, hc, rfl⟩
    · rintro ⟨c, hc, rfl⟩
      exact ⟨(s, c), hc, rfl, rfl⟩

theorem mem_definitions_iff {s : Symbol} {d : Definition} :
    d ∈ ix.definitions s ↔ ∃ i, (s, i) ∈ ix.items ∧ d ∈ i.definitions := by
  have hinfo : ix.definitions s = ((ix.info? s).map Info.definitions).getD [] := by cases ix <;> rfl
  simp only [mem_items_iff, hinfo]
  cases ix.info? s <;> simp

theorem nodup_symbols (ix : Index) : ix.symbols.Nodup := by
  cases ix with
  | listed ix => exact ix.infos.nodup_keys
  | linked ix =>
    rw [Index.symbols, Index.items, Linked.items, List.map_map]
    exact ix.cards.nodup_keys

theorem isSome_definitionAt? {s : Symbol} {l : Location} :
    (ix.definitionAt? s l).isSome ↔ ∃ d ∈ ix.definitions s, d.location = l := by
  simp [Index.definitionAt?, List.find?_isSome]

theorem mem_symbols_of_definitionAt? {s : Symbol} {l : Location}
    (h : (ix.definitionAt? s l).isSome) : s ∈ ix.symbols := by
  obtain ⟨d, hd, -⟩ := isSome_definitionAt?.1 h
  obtain ⟨i, hi, -⟩ := mem_definitions_iff.1 hd
  exact List.mem_map.2 ⟨_, hi, rfl⟩

theorem mem_allSites :
    site ∈ allSites ix ↔ (ix.definitionAt? site.symbol site.location).isSome := by
  constructor
  · intro hsite
    obtain ⟨s, -, hs⟩ := List.mem_flatMap.1 hsite
    obtain ⟨d, hd, rfl⟩ := List.mem_map.1 hs
    exact isSome_definitionAt?.2 ⟨d, hd, rfl⟩
  · intro hat
    obtain ⟨d, hd, hl⟩ := isSome_definitionAt?.1 hat
    refine List.mem_flatMap.2 ⟨_, mem_symbols_of_definitionAt? hat, List.mem_map.2 ⟨d, hd, ?_⟩⟩
    rw [hl]

/-! ## The tasks of a list -/

/-- A definition is wanted on the list unless it has a note and such are skipped. -/
def Wanted (ix : Index) (skipNoted : Bool) (site : Site) : Prop :=
  skipNoted = true → noteOn ix site = none

/-- A task that has just been put on the list. -/
def newTask (serial : Nat) (site : Site) : Task Site Note Nat := ⟨site, serial, false, none⟩

theorem mem_ids_of_mem_tasks (h : t ∈ list.tasks) : t.id ∈ list.ids := List.mem_map.2 ⟨t, h, rfl⟩

theorem find?_eq_none_iff : list.find? site = none ↔ site ∉ list.ids := by
  simp [TodoList.find?, TodoList.ids]

theorem tasks_enqueue_of_wanted (hwanted : Wanted ix skipNoted site) (hnew : site ∉ list.ids) :
    (enqueue ix serial skipNoted list site).tasks = list.tasks ++ [newTask serial site] := by
  have htaken : (skipNoted && (noteOn ix site).isSome) = false := by
    cases skipNoted with
    | false => rfl
    | true => rw [hwanted rfl]; rfl
  simp only [enqueue, htaken, Bool.false_eq_true, if_false, TodoList.add, find?_eq_none_iff.2 hnew,
    Option.isSome_none]
  rfl

theorem enqueue_of_not_wanted (hwanted : ¬ Wanted ix skipNoted site) :
    enqueue ix serial skipNoted list site = list := by
  obtain ⟨hskip, hnote⟩ := Classical.not_imp.1 hwanted
  rw [enqueue, hskip, Option.isSome_iff_ne_none.2 hnote]
  rfl

theorem enqueue_of_mem (h : site ∈ list.ids) : enqueue ix serial skipNoted list site = list := by
  have htaken : (list.find? site).isSome = true :=
    Option.isSome_iff_ne_none.2 fun hnone => find?_eq_none_iff.1 hnone h
  simp only [enqueue, TodoList.add, htaken, if_true, ite_self]

theorem mem_tasks_enqueue : t ∈ (enqueue ix serial skipNoted list site).tasks ↔
    t ∈ list.tasks ∨ Wanted ix skipNoted site ∧ site ∉ list.ids ∧ t = newTask serial site := by
  by_cases hwanted : Wanted ix skipNoted site
  · by_cases hnew : site ∈ list.ids
    · simp [enqueue_of_mem hnew, hnew]
    · simp [tasks_enqueue_of_wanted hwanted hnew, hwanted, hnew]
  · simp [enqueue_of_not_wanted hwanted, hwanted]

theorem mem_ids_enqueue {other : Site} : other ∈ (enqueue ix serial skipNoted list site).ids ↔
    other ∈ list.ids ∨ Wanted ix skipNoted site ∧ other = site := by
  by_cases hwanted : Wanted ix skipNoted site
  · by_cases hnew : site ∈ list.ids
    · rw [enqueue_of_mem hnew]
      exact ⟨.inl, fun h => h.elim id fun h => h.2 ▸ hnew⟩
    · simp [TodoList.ids, tasks_enqueue_of_wanted hwanted hnew, hwanted, newTask]
  · simp [enqueue_of_not_wanted hwanted, hwanted]

/-- The tasks after some definitions have been put on the list: those that were there, and one for
every definition that is wanted and had none. -/
theorem mem_tasks_foldl_enqueue {sites : List Site} :
    t ∈ (sites.foldl (enqueue ix serial skipNoted) list).tasks ↔ t ∈ list.tasks ∨
      ∃ site ∈ sites, Wanted ix skipNoted site ∧ site ∉ list.ids ∧ t = newTask serial site := by
  induction sites generalizing list with
  | nil => simp
  | cons first sites ih =>
    simp only [List.foldl_cons, ih, mem_tasks_enqueue, mem_ids_enqueue, List.mem_cons,
      exists_eq_or_imp, or_assoc, not_or]
    refine or_congr_right ?_
    constructor
    · rintro (hfirst | ⟨site, hsite, hwanted, ⟨hnew, -⟩, ht⟩)
      · exact .inl hfirst
      · exact .inr ⟨site, hsite, hwanted, hnew, ht⟩
    · rintro (hfirst | ⟨site, hsite, hwanted, hnew, ht⟩)
      · exact .inl hfirst
      · -- a definition that comes twice gets its task at the first time
        by_cases hsame : site = first
        · exact .inl ⟨hsame ▸ hwanted, hsame ▸ hnew, hsame ▸ ht⟩
        · exact .inr ⟨site, hsite, hwanted, ⟨hnew, fun h => hsame h.2⟩, ht⟩

theorem consistent_enqueue (h : list.Consistent) (site : Site) :
    (enqueue ix serial skipNoted list site).Consistent := by
  unfold enqueue
  split
  · exact h
  · split
    · next hadd => exact h.add hadd
    · exact h

theorem consistent_foldl_enqueue (h : list.Consistent) (sites : List Site) :
    (sites.foldl (enqueue ix serial skipNoted) list).Consistent :=
  List.foldlRecOn sites _ h fun _ hlist site _ => consistent_enqueue hlist site

/-! ## Filling -/

/-- The list is filled with the definitions in the order of the policy. -/
theorem on_fillTodo {s s' : Service} {st : Setup} {policy : Policy} {sites : List Site}
    (hst : s.setup = some st)
    (hsites : (sitesBy st.indexer.index policy).on s = (.ok sites, s')) :
    (fillTodo policy skipNoted).on s = (.ok (), { s' with
      todo := sites.foldl (enqueue st.indexer.index st.serial skipNoted) s'.todo }) := by
  simp only [fillTodo, on_bind, on_current, hst, hsites, on_modify]

end CallAtlas.Service
