import CallAtlas.Proofs.Compare.Differences
import CallAtlas.Proofs.Outcome
import CallAtlas.Proofs.Value.Printed

/-! # Snapshots that compare equal

The normal form of a snapshot is its form with all paths resolved and each list in the order of its
items' printed forms (`normalIs_ofSnapshot`). Reordering lists does not change it, since printed
forms tell items apart (`snapshotForm_sorted_congr`), and what is put in another order afterwards is
still the form of a reordered snapshot (`exists_arranged`).

* `compare_eq_nil_iff`: two snapshots compare equal just if they are the same up to the order of
  their lists once their paths are resolved. -/

namespace CallAtlas

/-! ## Resolved paths -/

def Location.resolved (cwd : Path) (l : Location) : Location :=
  { l with file := .resolve cwd l.file }

def Site.resolved (cwd : Path) (s : Site) : Site := { s with location := s.location.resolved cwd }

def Definition.resolved (cwd : Path) (d : Definition) : Definition :=
  { d with location := d.location.resolved cwd, calls := d.calls.map (Site.resolved cwd) }

def Reference.resolved (cwd : Path) (r : Reference) : Reference :=
  { r with location := r.location.resolved cwd, callers := r.callers.map (Site.resolved cwd) }

def Info.resolved (cwd : Path) (i : Info) : Info :=
  ⟨i.definitions.map (Definition.resolved cwd), i.references.map (Reference.resolved cwd)⟩

/-- The snapshot with all paths resolved, where relative ones start at `cwd`. -/
def Snapshot.resolved (cwd : Path) (s : Snapshot) : Snapshot :=
  { s with entries := s.entries.map fun e => (e.1, e.2.resolved cwd) }

section
variable {cwd : Path}

theorem Definition.locations_resolved (d : Definition) :
    (d.resolved cwd).locations = d.locations.map (Location.resolved cwd) := by
  simp [locations, resolved, Site.resolved, Function.comp_def]

theorem Reference.locations_resolved (r : Reference) :
    (r.resolved cwd).locations = r.locations.map (Location.resolved cwd) := by
  simp [locations, resolved, Site.resolved, Function.comp_def]

theorem Info.locations_resolved (i : Info) :
    (i.resolved cwd).locations = i.locations.map (Location.resolved cwd) := by
  simp [locations, resolved, List.flatMap_map, List.map_flatMap, Definition.locations_resolved,
    Reference.locations_resolved]

theorem Snapshot.locations_resolved (s : Snapshot) :
    (s.resolved cwd).locations = s.locations.map (Location.resolved cwd) := by
  simp [locations, resolved, List.flatMap_map, List.map_flatMap, Info.locations_resolved]

theorem Snapshot.named_resolved {s : Snapshot} (hcwd : cwd.Named)
    (hs : ∀ l ∈ s.locations, l.file.Named) : ∀ l ∈ (s.resolved cwd).locations, l.file.Named := by
  intro l hl
  rw [locations_resolved] at hl
  obtain ⟨m, hm, rfl⟩ := List.mem_map.1 hl
  exact hcwd.resolve (hs m hm)

end

namespace Compare

/-! ## Normal forms -/

section Normal

variable {cwd : Path}

/-- A value has a normal form just if a condition holds, and then this one. -/
def NormalIs (cwd : Path) (v : Value) (P : Prop) (w : Value) : Prop :=
  ∀ u, Value.normal [] cwd v = .ok u ↔ P ∧ w = u

/-- The same for the fields of a dictionary. -/
def FieldsAre (cwd : Path) (fs : List (Text × Value)) (P : Prop) (gs : List (Text × Value)) : Prop :=
  ∀ us, Value.normalEntries [] cwd (fs.map fun f => (.text f.1, f.2)) = .ok us ↔
    P ∧ (gs.map fun f => (.text f.1, f.2)) = us

variable {v w : Value} {P Q : Prop} {fs gs : List (Text × Value)}

theorem NormalIs.congr (h : NormalIs cwd v P w) (hPQ : P ↔ Q) : NormalIs cwd v Q w :=
  fun u => (h u).trans (and_congr_left' hPQ)

theorem normalIs_of_eq (h : Value.normal [] cwd v = .ok v) : NormalIs cwd v True v := by
  intro u
  rw [h]
  simp

theorem FieldsAre.nil : FieldsAre cwd [] True [] := by
  intro us
  simp [Value.normalEntries]

theorem FieldsAre.cons {k : Text} (hv : NormalIs cwd v P w) (h : FieldsAre cwd fs Q gs) :
    FieldsAre cwd ((k, v) :: fs) (P ∧ Q) ((k, w) :: gs) := by
  intro us
  simp only [List.map_cons, Value.normalEntries, bind_eq_ok_iff, hv _, h _]
  refine ⟨?_, ?_⟩
  · rintro ⟨_, ⟨hP, rfl⟩, _, ⟨hQ, rfl⟩, hus⟩
    exact ⟨⟨hP, hQ⟩, Except.ok.inj hus⟩
  · rintro ⟨⟨hP, hQ⟩, rfl⟩
    exact ⟨_, ⟨hP, rfl⟩, _, ⟨hQ, rfl⟩, rfl⟩

theorem FieldsAre.normalIs (h : FieldsAre cwd fs P gs) :
    NormalIs cwd (.ofFields fs) P (.ofFields gs) := by
  intro u
  simp only [Value.ofFields, Value.normal, map_eq_ok_iff, h _]
  refine ⟨?_, ?_⟩
  · rintro ⟨_, ⟨hP, rfl⟩, rfl⟩
    exact ⟨hP, rfl⟩
  · rintro ⟨hP, rfl⟩
    exact ⟨_, ⟨hP, rfl⟩, rfl⟩

theorem normalIs_list {α β : Type} {f : α → Value} {g : β → Value} {r : α → β} {P : α → Prop}
    {xs : List α} (each : ∀ x ∈ xs, NormalIs cwd (f x) (P x) (g (r x))) :
    NormalIs cwd (.list (xs.map f)) (∀ x ∈ xs, P x) (.list (Value.sorted ((xs.map r).map g))) := by
  have hall : ∀ us, Value.normalAll [] cwd (xs.map f) = .ok us ↔
      (∀ x ∈ xs, P x) ∧ (xs.map r).map g = us := by
    induction xs with
    | nil => simp [Value.normalAll]
    | cons x xs ih =>
      intro us
      simp only [List.map_cons, Value.normalAll, bind_eq_ok_iff, each x (.head _) _,
        ih (fun y hy => each y (.tail _ hy)) _, List.forall_mem_cons]
      refine ⟨?_, ?_⟩
      · rintro ⟨_, ⟨hx, rfl⟩, _, ⟨hxs, rfl⟩, hus⟩
        exact ⟨⟨hx, hxs⟩, Except.ok.inj hus⟩
      · rintro ⟨⟨hx, hxs⟩, rfl⟩
        exact ⟨_, ⟨hx, rfl⟩, _, ⟨hxs, rfl⟩, rfl⟩
  intro u
  simp only [Value.normal, map_eq_ok_iff, hall]
  refine ⟨?_, ?_⟩
  · rintro ⟨_, ⟨hP, rfl⟩, rfl⟩
    exact ⟨hP, rfl⟩
  · rintro ⟨hP, rfl⟩
    exact ⟨_, ⟨hP, rfl⟩, rfl⟩

theorem normalIs_location (l : Location) :
    NormalIs cwd (.location l) (l.file.fault? = none) (placeForm (l.resolved cwd)) := by
  intro u
  rw [Value.normal, Value.resolved]
  cases l.file.fault? with
  | none => simp [Except.map, placeForm, Location.resolved, Value.ofLocation]
  | some fault => simp [Except.map]

theorem normalIs_ofText (t : Option Text) : NormalIs cwd (ofText t) True (ofText t) := by
  cases t <;> exact normalIs_of_eq (by simp [ofText, Value.normal])

theorem normalIs_text (t : Text) : NormalIs cwd (.text t) True (.text t) := normalIs_ofText (some t)

theorem normalIs_ofSymbol (s : Symbol) : NormalIs cwd (ofSymbol s) True (ofSymbol s) := by
  cases s with
  | function n =>
    refine (FieldsAre.cons (normalIs_text _) (.cons (normalIs_text n) .nil)).normalIs.congr ?_
    simp
  | method n c =>
    refine (FieldsAre.cons (normalIs_text _) (.cons (normalIs_text n)
      (.cons (normalIs_ofText c) .nil))).normalIs.congr ?_
    simp

theorem normalIs_ofNote (n : Option Note) : NormalIs cwd (ofNote n) True (ofNote n) := by
  cases n with
  | none => exact normalIs_ofText none
  | some n =>
    refine (FieldsAre.cons (normalIs_text _) (.cons (normalIs_text _)
      (.cons (normalIs_text _) .nil))).normalIs.congr ?_
    simp

theorem normalIs_ofSite (placeName : Text) (s : Site) :
    NormalIs cwd (ofSite placeName s) (s.location.file.fault? = none)
      (siteForm placeName (s.resolved cwd)) := by
  have hplace : NormalIs cwd (.ofFields [("location", .location s.location)]) _ _ :=
    (FieldsAre.cons (normalIs_location s.location) .nil).normalIs
  refine (FieldsAre.cons (normalIs_ofSymbol s.symbol) (.cons hplace .nil)).normalIs.congr ?_
  simp

theorem normalIs_ofDefinition (d : Definition) :
    NormalIs cwd (ofDefinition d) (∀ l ∈ d.locations, l.file.fault? = none)
      (definitionForm Value.sorted (d.resolved cwd)) := by
  refine (FieldsAre.cons (normalIs_location d.location) (.cons (normalIs_ofText d.doc)
    (.cons (normalIs_list fun c _ => normalIs_ofSite "reference" c)
    (.cons (normalIs_ofNote d.note) (.cons (normalIs_ofText d.source) .nil))))).normalIs.congr ?_
  simp [Definition.locations]

theorem normalIs_ofReference (r : Reference) :
    NormalIs cwd (ofReference r) (∀ l ∈ r.locations, l.file.fault? = none)
      (referenceForm Value.sorted (r.resolved cwd)) := by
  refine (FieldsAre.cons (normalIs_location r.location)
    (.cons (normalIs_list fun c _ => normalIs_ofSite "definition" c) .nil)).normalIs.congr ?_
  simp [Reference.locations]

theorem normalIs_ofEntry (e : Symbol × Info) :
    NormalIs cwd (ofEntry e) (∀ l ∈ e.2.locations, l.file.fault? = none)
      (entryForm Value.sorted (e.1, e.2.resolved cwd)) := by
  have hinfo : NormalIs cwd (.ofFields [("definitions", .list (e.2.definitions.map ofDefinition)),
      ("references", .list (e.2.references.map ofReference))]) _ _ :=
    (FieldsAre.cons (normalIs_list fun d _ => normalIs_ofDefinition d)
      (.cons (normalIs_list fun r _ => normalIs_ofReference r) .nil)).normalIs
  refine (FieldsAre.cons (normalIs_ofSymbol e.1) (.cons hinfo .nil)).normalIs.congr ?_
  simp only [Info.locations, List.forall_mem_append, List.forall_mem_flatMap, true_and, and_true]

/-- The normal form of a snapshot. -/
theorem normalIs_ofSnapshot {s : Snapshot} (hs : s.metadata = none) :
    NormalIs cwd (ofSnapshot s) (∀ l ∈ s.locations, l.file.fault? = none)
      (snapshotForm Value.sorted (s.resolved cwd)) := by
  have hnull : ofSnapshot s = .ofFields [("type", .text s.kind),
      ("data", .list (s.entries.map ofEntry)), ("metadata", .null)] := by
    rw [ofSnapshot, hs]
    rfl
  rw [hnull]
  refine (FieldsAre.cons (normalIs_text s.kind)
    (.cons (normalIs_list fun e _ => normalIs_ofEntry e)
    (.cons (normalIs_ofText none) .nil))).normalIs.congr ?_
  simp only [Snapshot.locations, List.forall_mem_flatMap, true_and, and_true]

end Normal

/-! ## Reordered lists -/

section Sorted

open Value (Plain)

theorem plain_ofText (t : Option Text) : Plain (ofText t) := by
  cases t with
  | none => exact .null
  | some t => exact .text t

theorem plain_ofSymbol (s : Symbol) : Plain (ofSymbol s) := by
  cases s with
  | function n => exact .table _ (by simp [Plain.text])
  | method n c => exact .table _ (by simp [Plain.text, plain_ofText])

theorem plain_ofNote (n : Option Note) : Plain (ofNote n) := by
  cases n with
  | none => exact .null
  | some n => exact .table _ (by simp [Plain.text])

theorem plain_placeForm (l : Location) : Plain (placeForm l) :=
  .table _ (by simp [Plain.text, Plain.int])

theorem plain_siteForm (placeName : Text) (s : Site) : Plain (siteForm placeName s) := by
  have hplace : Plain (.ofFields [("location", placeForm s.location)]) :=
    .table _ (by simp [plain_placeForm])
  exact .table _ (by simp [plain_ofSymbol, hplace])

theorem plain_sorted {α : Type} {f : α → Value} (hf : ∀ x, Plain (f x)) (xs : List α) :
    Plain (.list (Value.sorted (xs.map f))) := by
  refine .list _ fun v hv => ?_
  rw [Value.sorted, (Value.sortOn_perm _ _).mem_iff] at hv
  obtain ⟨x, -, rfl⟩ := List.mem_map.1 hv
  exact hf x

theorem plain_definitionForm (d : Definition) : Plain (definitionForm Value.sorted d) :=
  .table _ (by simp [plain_placeForm, plain_ofText, plain_ofNote, plain_sorted, plain_siteForm])

theorem plain_referenceForm (r : Reference) : Plain (referenceForm Value.sorted r) :=
  .table _ (by simp [plain_placeForm, plain_sorted, plain_siteForm])

theorem plain_entryForm (e : Symbol × Info) : Plain (entryForm Value.sorted e) := by
  have hinfo : Plain (infoForm Value.sorted e.2) :=
    .table _ (by simp [plain_sorted, plain_definitionForm, plain_referenceForm])
  exact .table _ (by simp [plain_ofSymbol, hinfo])

/-- Lists that are alike are equal once they are sorted by printed forms. -/
theorem sorted_eq_of_alike {α : Type} {R : α → α → Prop} {f : α → Value} {xs ys : List α}
    (h : Alike R xs ys) (hR : ∀ x y, R x y → f x = f y) (hplain : ∀ x, Plain (f x))
    (htable : ∀ x, ∃ fields, f x = .ofFields fields) :
    Value.sorted (xs.map f) = Value.sorted (ys.map f) := by
  obtain ⟨zs, hperm, hall⟩ := h
  have hmap : zs.map f = ys.map f := by
    clear hperm
    induction hall with
    | nil => rfl
    | cons hxy _ ih => rw [List.map_cons, List.map_cons, hR _ _ hxy, ih]
  rw [← hmap]
  refine Value.sortOn_eq_of_perm (hperm.map f) fun v hv w hw hkey => ?_
  obtain ⟨x, -, rfl⟩ := List.mem_map.1 hv
  obtain ⟨y, -, rfl⟩ := List.mem_map.1 hw
  have hquoted : ∀ x, (f x).toText = (f x).quoted := by
    intro x
    obtain ⟨fields, hx⟩ := htable x
    rw [hx]
    rfl
  rw [hquoted, hquoted] at hkey
  exact (hplain x).quoted_inj (hplain y) hkey

theorem definitionForm_sorted_congr {d e : Definition} (h : d.Same e) :
    definitionForm Value.sorted d = definitionForm Value.sorted e := by
  obtain ⟨hplace, hdoc, hcalls, hnote, hsource⟩ := h
  have hsorted := sorted_eq_of_alike (.of_perm hcalls) (fun _ _ => congrArg (siteForm "reference"))
    (plain_siteForm _) fun _ => ⟨_, rfl⟩
  rw [definitionForm, definitionForm, hplace, hdoc, hsorted, hnote, hsource]

theorem referenceForm_sorted_congr {r s : Reference} (h : r.Same s) :
    referenceForm Value.sorted r = referenceForm Value.sorted s := by
  obtain ⟨hplace, hcallers⟩ := h
  have hsorted := sorted_eq_of_alike (.of_perm hcallers)
    (fun _ _ => congrArg (siteForm "definition")) (plain_siteForm _) fun _ => ⟨_, rfl⟩
  rw [referenceForm, referenceForm, hplace, hsorted]

theorem infoForm_sorted_congr {i j : Info} (h : i.Same j) :
    infoForm Value.sorted i = infoForm Value.sorted j := by
  have hdefinitions := sorted_eq_of_alike h.1 (fun _ _ => definitionForm_sorted_congr)
    plain_definitionForm fun _ => ⟨_, rfl⟩
  have hreferences := sorted_eq_of_alike h.2 (fun _ _ => referenceForm_sorted_congr)
    plain_referenceForm fun _ => ⟨_, rfl⟩
  rw [infoForm, infoForm, hdefinitions, hreferences]

/-- Snapshots that are the same up to order have one normal form. -/
theorem snapshotForm_sorted_congr {s t : Snapshot} (h : s.Same t) :
    snapshotForm Value.sorted s = snapshotForm Value.sorted t := by
  obtain ⟨hkind, -, hentries⟩ := h
  have hsorted := sorted_eq_of_alike (f := entryForm Value.sorted) hentries
    (fun e f hef => by rw [entryForm, entryForm, hef.1, infoForm_sorted_congr hef.2])
    plain_entryForm fun _ => ⟨_, rfl⟩
  rw [snapshotForm, snapshotForm, hkind, hsorted]

end Sorted

/-! ## Order -/

section Order

/-- Changes the value of a key among fields. -/
def onKey (name : Text) (f : Value → Value) (field : Text × Value) : Text × Value :=
  if field.1 = name then (field.1, f field.2) else field

theorem onField_ofFields (name : Text) (f : Value → Value) (fields : List (Text × Value)) :
    onField name f (.ofFields fields) = .ofFields (fields.map (onKey name f)) := by
  rw [Value.ofFields, onField, Value.ofFields, List.map_map, List.map_map]
  refine congrArg Value.table (List.map_congr_left fun e _ => ?_)
  simp only [Function.comp_apply, same_text, onKey, beq_iff_eq]
  split <;> rfl

/-- Sorting the values of items is sorting the items. -/
theorem sortItems_map {α κ : Type} (before : κ → κ → Bool) (key : Value → κ) (f : α → Value)
    (xs : List α) :
    ∃ ys, xs.Perm ys ∧ sortItems before key (.list (xs.map f)) = .list (ys.map f) := by
  refine ⟨xs.mergeSort fun a b => before (key (f a)) (key (f b)), (List.mergeSort_perm _ _).symm, ?_⟩
  have hsort : (xs.mergeSort fun a b => before (key (f a)) (key (f b))).map
      (fun a => (key (f a), f a)) =
        (xs.map fun a => (key (f a), f a)).mergeSort fun a b => before a.1 b.1 :=
    List.map_mergeSort fun _ _ _ _ => rfl
  rw [sortItems, List.map_map, Function.comp_def, ← hsort, List.map_map]
  rfl

theorem sorted_map {α : Type} (f : α → Value) (xs : List α) :
    ∃ ys, xs.Perm ys ∧ Value.sorted (xs.map f) = ys.map f := by
  obtain ⟨ys, hperm, hsort⟩ := sortItems_map Text.le Value.toText f xs
  exact ⟨ys, hperm, Value.list.inj hsort⟩

/-- Items of a reordered list that are changed into others of the same meaning. -/
theorem exists_map_of_perm {α : Type} {R : α → α → Prop} {f g : α → Value} {xs ys : List α}
    (hperm : xs.Perm ys) (each : ∀ x, ∃ y, R x y ∧ f x = g y) :
    ∃ zs, Alike R xs zs ∧ ys.map f = zs.map g := by
  choose r hr hfg using each
  refine ⟨ys.map r, ⟨ys, hperm, ?_⟩, ?_⟩
  · rw [List.forall₂_map_right_iff, List.forall₂_same]
    exact fun x _ => hr x
  · rw [List.map_map]
    exact List.map_congr_left fun x _ => hfg x

theorem exists_arranged_definition (d : Definition) :
    ∃ e, d.Same e ∧ onField "calls" (sortItems textsBefore callKey) (definitionForm Value.sorted d) =
      definitionForm id e := by
  obtain ⟨calls, hcalls, hsorted⟩ := sorted_map (siteForm "reference") d.calls
  obtain ⟨calls', hcalls', hsorted'⟩ :=
    sortItems_map textsBefore callKey (siteForm "reference") calls
  refine ⟨{ d with calls := calls' }, ⟨rfl, rfl, hcalls.trans hcalls', rfl, rfl⟩, ?_⟩
  rw [definitionForm, onField_ofFields, hsorted]
  simp [onKey, Text.ofString_inj, hsorted', definitionForm]

theorem exists_arranged_reference (r : Reference) :
    ∃ s, r.Same s ∧ referenceForm Value.sorted r = referenceForm id s := by
  obtain ⟨callers, hcallers, hsorted⟩ := sorted_map (siteForm "definition") r.callers
  refine ⟨{ r with callers := callers }, ⟨rfl, hcallers⟩, ?_⟩
  rw [referenceForm, hsorted]
  rfl

theorem exists_arranged_info (i : Info) :
    ∃ j, i.Same j ∧ orderInfo (infoForm Value.sorted i) = infoForm id j := by
  obtain ⟨ds, hds, hsorted⟩ := sorted_map (definitionForm Value.sorted) i.definitions
  obtain ⟨ds', hds', hplaced⟩ := sortItems_map placeBefore placeKey (definitionForm Value.sorted) ds
  obtain ⟨es, hes, hcalls⟩ := exists_map_of_perm (hds.trans hds') exists_arranged_definition
  obtain ⟨rs, hrs, hsorted'⟩ := sorted_map (referenceForm Value.sorted) i.references
  obtain ⟨rs', hrs', hplaced'⟩ := sortItems_map placeBefore placeKey (referenceForm Value.sorted) rs
  obtain ⟨ss, hss, hcallers⟩ := exists_map_of_perm (hrs.trans hrs') exists_arranged_reference
  refine ⟨⟨es, ss⟩, ⟨hes, hss⟩, ?_⟩
  rw [infoForm, hsorted, hsorted']
  simp [orderInfo, onField_ofFields, onKey, Text.ofString_inj, hplaced, hplaced', onItems,
    Function.comp_def, hcalls, hcallers, infoForm]

/-- What is put in order is the form of a reordered snapshot. -/
theorem exists_arranged {s : Snapshot} (hs : s.metadata = none) :
    ∃ t, s.Same t ∧ t.metadata = none ∧
      order (snapshotForm Value.sorted s) = snapshotForm id t := by
  have hentry : ∀ e : Symbol × Info, ∃ f : Symbol × Info, (e.1 = f.1 ∧ e.2.Same f.2) ∧
      onField "info" orderInfo (entryForm Value.sorted e) = entryForm id f := by
    intro e
    obtain ⟨j, hj, hinfo⟩ := exists_arranged_info e.2
    refine ⟨(e.1, j), ⟨rfl, hj⟩, ?_⟩
    rw [entryForm, onField_ofFields]
    simp [onKey, Text.ofString_inj, hinfo, entryForm]
  obtain ⟨es, hes, hsorted⟩ := sorted_map (entryForm Value.sorted) s.entries
  obtain ⟨es', hes', hnamed⟩ := sortItems_map Text.le
    (fun e => textOf (fieldOf "name" (fieldOf "symbol" e))) (entryForm Value.sorted) es
  obtain ⟨fs, hfs, hinfos⟩ := exists_map_of_perm (hes.trans hes') hentry
  refine ⟨⟨s.kind, fs, none⟩, ⟨rfl, hs, hfs⟩, rfl, ?_⟩
  rw [snapshotForm, hsorted]
  simp [order, onField_ofFields, onKey, Text.ofString_inj, hnamed, onItems, Function.comp_def,
    hinfos, snapshotForm]

end Order

/-! ## Comparing -/

theorem normal_eq_ok_iff {cwd : Path} {s : Snapshot} (hs : s.metadata = none) {v : Value} :
    normal cwd s = .ok v ↔ (∀ l ∈ s.locations, l.file.fault? = none) ∧
      order (snapshotForm Value.sorted (s.resolved cwd)) = v := by
  rw [normal, map_eq_ok_iff]
  simp only [normalIs_ofSnapshot hs _]
  refine ⟨?_, ?_⟩
  · rintro ⟨_, ⟨hl, rfl⟩, rfl⟩
    exact ⟨hl, rfl⟩
  · rintro ⟨hl, rfl⟩
    exact ⟨_, ⟨hl, rfl⟩, rfl⟩

theorem compare_eq_nil_iff_normal {cwd : Path} {a b : Snapshot} :
    compare cwd a b = [] ↔
      ∃ v w, normal cwd a = .ok v ∧ normal cwd b = .ok w ∧ differences "" v w = [] := by
  unfold compare
  cases normal cwd a with
  | error e => simp
  | ok v =>
    cases normal cwd b with
    | error e => simp
    | ok w => simp

/-- `compare` finds no difference between two snapshots without metadata iff all their paths can be
resolved and, once they are `resolved`, the snapshots are the `Same` up to the order of their lists.
-/
theorem compare_eq_nil_iff {cwd : Path} (hcwd : cwd.Named) {a b : Snapshot} (ha : a.metadata = none)
    (hb : b.metadata = none) (hpa : ∀ l ∈ a.locations, l.file.Named)
    (hpb : ∀ l ∈ b.locations, l.file.Named) :
    compare cwd a b = [] ↔
      (∀ l ∈ a.locations ++ b.locations, l.file.fault? = none) ∧
        (a.resolved cwd).Same (b.resolved cwd) := by
  obtain ⟨t, hat, ht, hta⟩ := exists_arranged (s := a.resolved cwd) ha
  obtain ⟨u, hbu, hu, hub⟩ := exists_arranged (s := b.resolved cwd) hb
  have hnt : ∀ l ∈ t.locations, l.file.Named := fun l hl =>
    Snapshot.named_resolved hcwd hpa l (hat.mem_locations hl)
  have hnu : ∀ l ∈ u.locations, l.file.Named := fun l hl =>
    Snapshot.named_resolved hcwd hpb l (hbu.mem_locations hl)
  have hequal : differences "" (snapshotForm id t) (snapshotForm id u) = [] ↔
      (a.resolved cwd).Same (b.resolved cwd) := by
    refine ⟨fun h => ?_, fun h => ?_⟩
    · obtain rfl := (differences_snapshotForm_iff "" ht hu hnt hnu).1 h
      exact hat.of_common hbu
    · rw [← hta, snapshotForm_sorted_congr h, hub]
      exact (differences_snapshotForm_iff "" hu hu hnu hnu).2 rfl
  rw [compare_eq_nil_iff_normal, List.forall_mem_append, ← hequal, ← hta, ← hub]
  simp only [normal_eq_ok_iff ha, normal_eq_ok_iff hb]
  refine ⟨?_, ?_⟩
  · rintro ⟨_, _, ⟨hla, rfl⟩, ⟨hlb, rfl⟩, h⟩
    exact ⟨⟨hla, hlb⟩, h⟩
  · rintro ⟨⟨hla, hlb⟩, h⟩
    exact ⟨_, _, ⟨hla, rfl⟩, ⟨hlb, rfl⟩, h⟩

/-- One line of a file. -/
def lineOf (file : Text) (n : Int) : Location := ⟨.ofText file, n, 0, n, 9, 10 * n, 10 * n + 9⟩

/-- A snapshot of two functions, one of which is defined twice and calls twice. -/
def twoCalls (kind : Text) : Snapshot :=
  ⟨kind, [(.function "f", ⟨[⟨lineOf "m.py" 1, none, [⟨.function "g", lineOf "m.py" 2⟩,
        ⟨.method "h" none, lineOf "m.py" 3⟩], none, none⟩,
      ⟨lineOf "n.py" 1, some "doc", [], none, none⟩], []⟩),
    (.function "g", ⟨[], [⟨lineOf "m.py" 2, [⟨.function "f", lineOf "m.py" 1⟩]⟩]⟩)], none⟩

/-- The same in another order, with other ways to one of the files. -/
def twoCallsReordered : Snapshot :=
  ⟨"simple", [(.function "g", ⟨[], [⟨lineOf "a/../m.py" 2, [⟨.function "f", lineOf "/w/m.py" 1⟩]⟩]⟩),
    (.function "f", ⟨[⟨lineOf "n.py" 1, some "doc", [], none, none⟩,
      ⟨lineOf "/w/m.py" 1, none, [⟨.method "h" none, lineOf "/w/m.py" 3⟩,
        ⟨.function "g", lineOf "m.py" 2⟩], none, none⟩], []⟩)], none⟩

theorem compare_eq_nil_iff_twoCalls :
    compare (.ofText "/w") (twoCalls "simple") twoCallsReordered = [] ∧
    compare (.ofText "/w") (twoCalls "cross_ref") twoCallsReordered ≠ [] := by
  have hnamed : (∀ l ∈ (twoCalls "simple").locations, l.file.Named) ∧
      (∀ l ∈ (twoCalls "cross_ref").locations, l.file.Named) ∧
      ∀ l ∈ twoCallsReordered.locations, l.file.Named := by
    simp only [Path.named_iff, Path.IsName]
    decide +kernel
  obtain ⟨hsimple, hcross, hreordered⟩ := hnamed
  rw [compare_eq_nil_iff ⟨_, rfl⟩ rfl rfl hsimple hreordered, Ne,
    compare_eq_nil_iff ⟨_, rfl⟩ rfl rfl hcross hreordered]
  refine ⟨⟨by decide +kernel, rfl, rfl, _, .swap _ _ _, ?_⟩, fun h => ?_⟩
  · refine .cons ⟨rfl, ⟨[], .refl _, .nil⟩, _, .refl _, .cons ⟨?_, ?_⟩ .nil⟩
      (.cons ⟨rfl, ⟨_, .swap _ _ _, .cons ⟨rfl, rfl, ?_, rfl, rfl⟩ (.cons ⟨?_, rfl, ?_, rfl, rfl⟩ .nil)⟩,
        [], .refl _, .nil⟩ .nil)
    all_goals decide +kernel
  · exact absurd h.2.1 (by decide +kernel)

end Compare

end CallAtlas
