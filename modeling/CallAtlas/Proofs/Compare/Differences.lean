import CallAtlas.Compare
import CallAtlas.Proofs.Path
import CallAtlas.Proofs.Reordering

/-! # When there are no differences

Dictionaries that have the same keys are compared field by field (`differences_ofFields_iff`), and
lists item by item (`differences_list_iff`). `snapshotForm` is the value of a snapshot with paths as
texts.

* `differences_snapshotForm_iff`: there are no differences between the forms of two snapshots just if
  the snapshots are equal. -/

namespace CallAtlas.Compare

variable {way : Text}

/-! ## Dictionaries -/

theorem same_text (s t : Text) : Value.same (.text s) (.text t) = (s == t) := by
  rw [Value.same]

theorem keyDifference_eq_nil_iff {phrase : Text} {as bs : List (Value × Value)} :
    keyDifference way phrase as bs = [] ↔ ∀ a ∈ as, ∃ b ∈ bs, Value.same b.1 a.1 = true := by
  have hfilter : ((as.map Prod.fst).filter fun k => !bs.any fun e => Value.same e.1 k) = [] ↔
      ∀ a ∈ as, ∃ b ∈ bs, Value.same b.1 a.1 = true := by
    simp [List.filter_eq_nil_iff]
  rw [← hfilter, keyDifference]
  split
  · next h => simp [h]
  · next h =>
    refine ⟨fun hnil => absurd hnil (List.cons_ne_nil _ _), fun hnil => absurd hnil ?_⟩
    exact h

theorem find?_field {fields : List (Text × Value)} (hkeys : (fields.map Prod.fst).Nodup)
    {f : Text × Value} (hf : f ∈ fields) :
    ((fields.map fun f => ((.text f.1, f.2) : Value × Value)).find?
      fun e => Value.same e.1 (.text f.1)) = some (.text f.1, f.2) := by
  obtain ⟨before, after, rfl⟩ := List.append_of_mem hf
  rw [List.map_append, List.map_cons, List.nodup_middle, List.nodup_cons] at hkeys
  rw [List.find?_eq_some_iff_append]
  refine ⟨by simp [same_text], _, _, by rw [List.map_append, List.map_cons], ?_⟩
  intro e he
  obtain ⟨g, hg, rfl⟩ := List.mem_map.1 he
  rw [same_text, Bool.not_eq_true', beq_eq_false_iff_ne]
  rintro hgf
  exact hkeys.1 (hgf ▸ List.mem_append_left _ (List.mem_map_of_mem hg))

theorem entryDifferences_eq_nil_iff {gs : List (Text × Value)} (hkeys : (gs.map Prod.fst).Nodup)
    {fs hs : List (Text × Value)} (heq : fs.map Prod.fst = hs.map Prod.fst) (hsub : hs ⊆ gs) :
    entryDifferences way (gs.map fun f => (.text f.1, f.2)) (fs.map fun f => (.text f.1, f.2)) = [] ↔
      List.Forall₂ (fun f g => differences (keyWay way (.text f.1)) f.2 g.2 = []) fs hs := by
  induction fs generalizing hs with
  | nil =>
    obtain rfl : hs = [] := by simpa using heq.symm
    simp [entryDifferences]
  | cons f fs ih =>
    cases hs with
    | nil => simp at heq
    | cons h hs =>
      obtain ⟨hkey, hrest⟩ := List.cons.inj heq
      have hfind := find?_field hkeys (hsub (.head _))
      rw [List.map_cons, entryDifferences, List.append_eq_nil_iff,
        ih hrest fun g hg => hsub (.tail _ hg), List.forall₂_cons, hkey, hfind]

/-- Dictionaries without differences have the same keys. -/
theorem keys_of_differences {fs gs : List (Text × Value)}
    (h : differences way (.ofFields fs) (.ofFields gs) = []) (key : Text) :
    key ∈ fs.map Prod.fst ↔ key ∈ gs.map Prod.fst := by
  have hmem : ∀ {xs ys : List (Text × Value)},
      (∀ a ∈ xs.map fun f => ((.text f.1, f.2) : Value × Value),
        ∃ b ∈ ys.map fun f => ((.text f.1, f.2) : Value × Value), Value.same b.1 a.1 = true) →
      key ∈ xs.map Prod.fst → key ∈ ys.map Prod.fst := by
    intro xs ys hxy hkey
    obtain ⟨x, hx, rfl⟩ := List.mem_map.1 hkey
    obtain ⟨b, hb, hsame⟩ := hxy _ (List.mem_map_of_mem hx)
    obtain ⟨y, hy, rfl⟩ := List.mem_map.1 hb
    rw [same_text, beq_iff_eq] at hsame
    exact hsame ▸ List.mem_map_of_mem hy
  rw [Value.ofFields, Value.ofFields, differences, List.append_eq_nil_iff, List.append_eq_nil_iff,
    keyDifference_eq_nil_iff, keyDifference_eq_nil_iff] at h
  exact ⟨hmem h.1.1, hmem h.1.2⟩

/-- Dictionaries with the same keys differ where the values of a key differ. -/
theorem differences_ofFields_iff {fs gs : List (Text × Value)}
    (heq : fs.map Prod.fst = gs.map Prod.fst) (hkeys : (gs.map Prod.fst).Nodup) :
    differences way (.ofFields fs) (.ofFields gs) = [] ↔
      List.Forall₂ (fun f g => differences (keyWay way (.text f.1)) f.2 g.2 = []) fs gs := by
  have hmem : ∀ {xs ys : List (Text × Value)}, xs.map Prod.fst = ys.map Prod.fst →
      ∀ a ∈ xs.map fun f => ((.text f.1, f.2) : Value × Value),
        ∃ b ∈ ys.map fun f => ((.text f.1, f.2) : Value × Value), Value.same b.1 a.1 = true := by
    intro xs ys hxy a ha
    obtain ⟨x, hx, rfl⟩ := List.mem_map.1 ha
    have hkey : x.1 ∈ ys.map Prod.fst := hxy ▸ List.mem_map_of_mem hx
    obtain ⟨y, hy, hyx⟩ := List.mem_map.1 hkey
    exact ⟨_, List.mem_map_of_mem hy, by simp [same_text, hyx]⟩
  rw [Value.ofFields, Value.ofFields, differences, List.append_eq_nil_iff, List.append_eq_nil_iff,
    keyDifference_eq_nil_iff, keyDifference_eq_nil_iff,
    entryDifferences_eq_nil_iff hkeys heq (List.Subset.refl gs)]
  exact and_iff_right ⟨hmem heq, hmem heq.symm⟩

/-! ## Lists -/

theorem itemDifferences_eq_nil_iff {α : Type} {f : α → Value} {xs ys : List α} (i : Nat)
    (hlen : xs.length = ys.length)
    (each : ∀ x ∈ xs, ∀ y ∈ ys, ∀ way, differences way (f x) (f y) = [] ↔ x = y) :
    itemDifferences way i (ys.map f) (xs.map f) = [] ↔ xs = ys := by
  induction xs generalizing ys i with
  | nil =>
    obtain rfl : ys = [] := by simpa using hlen.symm
    simp [itemDifferences]
  | cons x xs ih =>
    cases ys with
    | nil => simp at hlen
    | cons y ys =>
      rw [List.map_cons, List.map_cons, itemDifferences, List.append_eq_nil_iff,
        each x (.head _) y (.head _), ih (i + 1) (Nat.succ.inj hlen)
          fun a ha b hb => each a (.tail _ ha) b (.tail _ hb), List.cons.injEq]

/-- Lists differ where their items do. -/
theorem differences_list_iff {α : Type} {f : α → Value} {xs ys : List α}
    (each : ∀ x ∈ xs, ∀ y ∈ ys, ∀ way, differences way (f x) (f y) = [] ↔ x = y) :
    differences way (.list (xs.map f)) (.list (ys.map f)) = [] ↔ xs = ys := by
  rw [differences, List.length_map, List.length_map]
  split
  · next hlen =>
    refine ⟨fun h => absurd h (List.cons_ne_nil _ _), ?_⟩
    rintro rfl
    exact absurd rfl hlen
  · next hlen => exact itemDifferences_eq_nil_iff 0 (not_not.1 hlen) each

/-! ## Values without parts -/

theorem differences_text_iff {s t : Text} : differences way (.text s) (.text t) = [] ↔ s = t := by
  simp [differences, leafDifference, Value.typeName, same_text]

theorem differences_int_iff {m n : Int} : differences way (.int m) (.int n) = [] ↔ m = n := by
  simp [differences, leafDifference, Value.typeName, Value.same, Value.sameNumber, Value.integer?]

theorem differences_ofText_iff {s t : Option Text} :
    differences way (ofText s) (ofText t) = [] ↔ s = t := by
  cases s with
  | none =>
    cases t with
    | none => simp [ofText, differences, leafDifference, Value.same]
    | some t => simp [ofText, differences, leafDifference, Value.typeName, Text.ofString_inj]
  | some s =>
    cases t with
    | none => simp [ofText, differences, leafDifference, Value.typeName, Text.ofString_inj]
    | some t => simp [ofText, differences_text_iff]

theorem differences_ofSymbol_iff {s t : Symbol} :
    differences way (ofSymbol s) (ofSymbol t) = [] ↔ s = t := by
  cases s with
  | function n =>
    cases t with
    | function m =>
      refine (differences_ofFields_iff (by rfl) (by simp [Text.ofString_inj])).trans ?_
      simp [differences_text_iff]
    | method m c =>
      refine ⟨fun h => ?_, nofun⟩
      simpa [Text.ofString_inj] using keys_of_differences h "class_name"
  | method n c =>
    cases t with
    | function m =>
      refine ⟨fun h => ?_, nofun⟩
      simpa [Text.ofString_inj] using keys_of_differences h "class_name"
    | method m d =>
      refine (differences_ofFields_iff (by rfl) (by simp [Text.ofString_inj])).trans ?_
      simp [differences_text_iff, differences_ofText_iff]

theorem differences_ofNote_iff {m n : Option Note} :
    differences way (ofNote m) (ofNote n) = [] ↔ m = n := by
  cases m with
  | none =>
    cases n with
    | none => simp [ofNote, differences, leafDifference, Value.same]
    | some n =>
      simp [ofNote, Value.ofFields, differences, leafDifference, Value.typeName, Text.ofString_inj]
  | some m =>
    cases n with
    | none =>
      simp [ofNote, Value.ofFields, differences, leafDifference, Value.typeName, Text.ofString_inj]
    | some n =>
      refine (differences_ofFields_iff (by rfl) (by simp [Text.ofString_inj])).trans ?_
      obtain ⟨d, v, f⟩ := m
      obtain ⟨d', v', f'⟩ := n
      simp [differences_text_iff]

/-! ## Snapshots with paths as texts -/

section Forms

variable (arrange : List Value → List Value)

def placeForm (l : Location) : Value := .ofLocation l l.file.toText

def siteForm (placeName : Text) (s : Site) : Value :=
  .ofFields [("symbol", ofSymbol s.symbol),
    (placeName, .ofFields [("location", placeForm s.location)])]

def definitionForm (d : Definition) : Value :=
  .ofFields [("location", placeForm d.location), ("doc", ofText d.doc),
    ("calls", .list (arrange (d.calls.map (siteForm "reference")))), ("llm_note", ofNote d.note),
    ("source_code", ofText d.source)]

def referenceForm (r : Reference) : Value :=
  .ofFields [("location", placeForm r.location),
    ("called_by", .list (arrange (r.callers.map (siteForm "definition"))))]

def infoForm (i : Info) : Value :=
  .ofFields [("definitions", .list (arrange (i.definitions.map (definitionForm arrange)))),
    ("references", .list (arrange (i.references.map (referenceForm arrange))))]

def entryForm (e : Symbol × Info) : Value :=
  .ofFields [("symbol", ofSymbol e.1), ("info", infoForm arrange e.2)]

/-- The value of a snapshot without metadata, with paths as texts and every list arranged. -/
def snapshotForm (s : Snapshot) : Value :=
  .ofFields [("type", .text s.kind), ("data", .list (arrange (s.entries.map (entryForm arrange)))),
    ("metadata", .null)]

end Forms

section Equal

variable (way : Text)

theorem differences_placeForm_iff {l m : Location} (hl : l.file.Named) (hm : m.file.Named) :
    differences way (placeForm l) (placeForm m) = [] ↔ l = m := by
  refine (differences_ofFields_iff (by rfl) (by simp [Text.ofString_inj])).trans ?_
  obtain ⟨f, a, b, c, d, x, y⟩ := l
  obtain ⟨f', a', b', c', d', x', y'⟩ := m
  simp [differences_text_iff, differences_int_iff, hl.toText_inj hm]

theorem differences_siteForm_iff {placeName : Text} (hname : placeName ≠ "symbol") {s t : Site}
    (hs : s.location.file.Named) (ht : t.location.file.Named) :
    differences way (siteForm placeName s) (siteForm placeName t) = [] ↔ s = t := by
  have hplace : ∀ way, differences way (.ofFields [("location", placeForm s.location)])
      (.ofFields [("location", placeForm t.location)]) = [] ↔ s.location = t.location := by
    intro way
    refine (differences_ofFields_iff (by rfl) (by simp)).trans ?_
    simp [differences_placeForm_iff _ hs ht]
  refine (differences_ofFields_iff (by rfl) (by simp [hname.symm])).trans ?_
  obtain ⟨a, l⟩ := s
  obtain ⟨b, m⟩ := t
  simp [differences_ofSymbol_iff, hplace]

theorem differences_sites_iff {placeName : Text} (hname : placeName ≠ "symbol") {ss ts : List Site}
    (hs : ∀ l ∈ ss.map Site.location, l.file.Named) (ht : ∀ l ∈ ts.map Site.location, l.file.Named) :
    differences way (.list (ss.map (siteForm placeName))) (.list (ts.map (siteForm placeName))) = [] ↔
      ss = ts :=
  differences_list_iff fun _ hmem _ hmem' way => differences_siteForm_iff way hname
    (hs _ (List.mem_map_of_mem hmem)) (ht _ (List.mem_map_of_mem hmem'))

theorem differences_definitionForm_iff {d e : Definition} (hd : ∀ l ∈ d.locations, l.file.Named)
    (he : ∀ l ∈ e.locations, l.file.Named) :
    differences way (definitionForm id d) (definitionForm id e) = [] ↔ d = e := by
  have hplace := fun way => differences_placeForm_iff way (hd _ (.head _)) (he _ (.head _))
  have hname : ("reference" : Text) ≠ "symbol" := by simp [Text.ofString_inj]
  have hcalls := fun way => differences_sites_iff way hname (fun l hl => hd l (.tail _ hl))
    (fun l hl => he l (.tail _ hl))
  refine (differences_ofFields_iff (by rfl) (by simp [Text.ofString_inj])).trans ?_
  obtain ⟨l, doc, calls, note, source⟩ := d
  obtain ⟨l', doc', calls', note', source'⟩ := e
  simp [hplace, hcalls, differences_ofText_iff, differences_ofNote_iff]

theorem differences_referenceForm_iff {r s : Reference} (hr : ∀ l ∈ r.locations, l.file.Named)
    (hs : ∀ l ∈ s.locations, l.file.Named) :
    differences way (referenceForm id r) (referenceForm id s) = [] ↔ r = s := by
  have hplace := fun way => differences_placeForm_iff way (hr _ (.head _)) (hs _ (.head _))
  have hname : ("definition" : Text) ≠ "symbol" := by simp [Text.ofString_inj]
  have hcallers := fun way => differences_sites_iff way hname (fun l hl => hr l (.tail _ hl))
    (fun l hl => hs l (.tail _ hl))
  refine (differences_ofFields_iff (by rfl) (by simp [Text.ofString_inj])).trans ?_
  obtain ⟨l, callers⟩ := r
  obtain ⟨l', callers'⟩ := s
  simp [hplace, hcallers]

theorem differences_infoForm_iff {i j : Info} (hi : ∀ l ∈ i.locations, l.file.Named)
    (hj : ∀ l ∈ j.locations, l.file.Named) :
    differences way (infoForm id i) (infoForm id j) = [] ↔ i = j := by
  have hdefinitions : ∀ way, differences way (.list (i.definitions.map (definitionForm id)))
      (.list (j.definitions.map (definitionForm id))) = [] ↔ i.definitions = j.definitions :=
    fun way => differences_list_iff fun d hd e he way => differences_definitionForm_iff way
      (fun l hl => hi l (List.mem_append_left _ (List.mem_flatMap.2 ⟨d, hd, hl⟩)))
      (fun l hl => hj l (List.mem_append_left _ (List.mem_flatMap.2 ⟨e, he, hl⟩)))
  have hreferences : ∀ way, differences way (.list (i.references.map (referenceForm id)))
      (.list (j.references.map (referenceForm id))) = [] ↔ i.references = j.references :=
    fun way => differences_list_iff fun r hr s hs way => differences_referenceForm_iff way
      (fun l hl => hi l (List.mem_append_right _ (List.mem_flatMap.2 ⟨r, hr, hl⟩)))
      (fun l hl => hj l (List.mem_append_right _ (List.mem_flatMap.2 ⟨s, hs, hl⟩)))
  refine (differences_ofFields_iff (by rfl) (by simp [Text.ofString_inj])).trans ?_
  obtain ⟨ds, rs⟩ := i
  obtain ⟨ds', rs'⟩ := j
  simp [hdefinitions, hreferences]

/-- There are no differences between the forms of two snapshots just if they are equal. -/
theorem differences_snapshotForm_iff {s t : Snapshot} (hs : s.metadata = none)
    (ht : t.metadata = none) (hs' : ∀ l ∈ s.locations, l.file.Named)
    (ht' : ∀ l ∈ t.locations, l.file.Named) :
    differences way (snapshotForm id s) (snapshotForm id t) = [] ↔ s = t := by
  have hentry : ∀ e ∈ s.entries, ∀ f ∈ t.entries, ∀ way,
      differences way (entryForm id e) (entryForm id f) = [] ↔ e = f := by
    intro e he f hf way
    have hinfo := fun way => differences_infoForm_iff way
      (fun l hl => hs' l (List.mem_flatMap.2 ⟨e, he, hl⟩))
      (fun l hl => ht' l (List.mem_flatMap.2 ⟨f, hf, hl⟩))
    refine (differences_ofFields_iff (by rfl) (by simp [Text.ofString_inj])).trans ?_
    simp [differences_ofSymbol_iff, hinfo, Prod.ext_iff]
  have hentries : ∀ way, differences way (.list (s.entries.map (entryForm id)))
      (.list (t.entries.map (entryForm id))) = [] ↔ s.entries = t.entries :=
    fun way => differences_list_iff hentry
  have hnull : ∀ way, differences way .null .null = [] :=
    fun way => (differences_ofText_iff (s := none) (t := none)).2 rfl
  refine (differences_ofFields_iff (by rfl) (by simp [Text.ofString_inj])).trans ?_
  obtain ⟨kind, entries, metadata⟩ := s
  obtain ⟨kind', entries', metadata'⟩ := t
  subst hs
  subst ht
  simp [differences_text_iff, hentries, hnull]

end Equal

end CallAtlas.Compare
