import CallAtlas.Proofs.Json.RoundTrip
import CallAtlas.Proofs.Path
import CallAtlas.Proofs.Reordering
import CallAtlas.Store.Document

/-! # Snapshots read back from their documents

A document tells a place by the text of its file's path, so what is read back has every place as
that text names it (`Snapshot.reread`); everything else is as it was. Absent fields are found to be
absent, whatever else an object has (`field?_always`, `field?_whenSome`, `field?_whenItems`,
`field?_whenText`). A document is ten levels deep (`within_ofSnapshot`), which limits on what may be
read allow.

* `parseWithin_render`, `parse_render`: the text of a snapshot without metadata is read as that
  snapshot.
* `encode?_eq`: it can be encoded unless a text holds half of a pair (`hasHalf_ofSnapshot`).
* `Snapshot.reread_eq`: nothing changes if all paths are named by texts. -/

namespace CallAtlas

/-! ## Places -/

/-- The numbers of a place. -/
def Location.numbers (l : Location) : List Int :=
  [l.startLine, l.startColumn, l.endLine, l.endColumn, l.startByte, l.endByte]

/-- No number of a place has more digits than allowed. -/
def Location.Fits (digits : Option Nat) (l : Location) : Prop :=
  ∀ n ∈ l.numbers, ∀ most ∈ digits, (Text.numeral n.natAbs).length ≤ most

/-! ## Texts of snapshots -/

def Symbol.texts : Symbol → List Text
  | .function name => [name]
  | .method name className => name :: className.toList

def Site.texts (s : Site) : List Text := s.symbol.texts ++ [s.location.file.toText]

def Note.texts (n : Note) : List Text := [n.description, n.vulnerabilities, n.controlFlow]

def Definition.texts (d : Definition) : List Text :=
  d.location.file.toText :: (d.doc.toList ++ d.calls.flatMap Site.texts
    ++ d.note.toList.flatMap Note.texts ++ d.source.toList)

def Reference.texts (r : Reference) : List Text :=
  r.location.file.toText :: r.callers.flatMap Site.texts

def Info.texts (i : Info) : List Text :=
  i.definitions.flatMap Definition.texts ++ i.references.flatMap Reference.texts

/-- The texts of a snapshot, those of its paths among them. -/
def Snapshot.texts (s : Snapshot) : List Text :=
  s.kind :: s.entries.flatMap fun e => e.1.texts ++ e.2.texts

/-! ## Places by their texts -/

/-- The place as its text names it. -/
def Location.reread (l : Location) : Location := { l with file := .ofText l.file.toText }

def Site.reread (s : Site) : Site := { s with location := s.location.reread }

def Definition.reread (d : Definition) : Definition :=
  { d with location := d.location.reread, calls := d.calls.map Site.reread }

def Reference.reread (r : Reference) : Reference :=
  { r with location := r.location.reread, callers := r.callers.map Site.reread }

def Info.reread (i : Info) : Info :=
  ⟨i.definitions.map Definition.reread, i.references.map Reference.reread⟩

/-- The snapshot with every place as its text names it. -/
def Snapshot.reread (s : Snapshot) : Snapshot :=
  { s with entries := s.entries.map fun e => (e.1, e.2.reread) }

theorem Location.reread_eq {l : Location} (h : l.file.Named) : l.reread = l := by
  rw [reread, h.ofText_toText]

theorem map_site_reread {sites : List Site} (h : ∀ l ∈ sites.map Site.location, l.file.Named) :
    sites.map Site.reread = sites := by
  refine (List.map_congr_left fun s hs => ?_).trans (List.map_id _)
  rw [Site.reread, Location.reread_eq (h _ (List.mem_map_of_mem hs))]
  rfl

theorem Definition.reread_eq {d : Definition} (h : ∀ l ∈ d.locations, l.file.Named) :
    d.reread = d := by
  rw [reread, Location.reread_eq (h _ (.head _)), map_site_reread fun l hl => h l (.tail _ hl)]

theorem Reference.reread_eq {r : Reference} (h : ∀ l ∈ r.locations, l.file.Named) :
    r.reread = r := by
  rw [reread, Location.reread_eq (h _ (.head _)), map_site_reread fun l hl => h l (.tail _ hl)]

theorem Info.reread_eq {i : Info} (h : ∀ l ∈ i.locations, l.file.Named) : i.reread = i := by
  have hd : i.definitions.map Definition.reread = i.definitions := by
    refine (List.map_congr_left fun d hd => ?_).trans (List.map_id _)
    exact Definition.reread_eq fun l hl =>
      h l (List.mem_append_left _ (List.mem_flatMap.2 ⟨d, hd, hl⟩))
  have hr : i.references.map Reference.reread = i.references := by
    refine (List.map_congr_left fun r hr => ?_).trans (List.map_id _)
    exact Reference.reread_eq fun l hl =>
      h l (List.mem_append_right _ (List.mem_flatMap.2 ⟨r, hr, hl⟩))
  rw [reread, hd, hr]

/-- A snapshot whose paths are named by texts has every place as its text names it. -/
theorem Snapshot.reread_eq {s : Snapshot} (h : ∀ l ∈ s.locations, l.file.Named) :
    s.reread = s := by
  have he : s.entries.map (fun e => (e.1, e.2.reread)) = s.entries := by
    refine (List.map_congr_left fun e he => ?_).trans (List.map_id _)
    exact Prod.ext rfl (Info.reread_eq fun l hl => h l (List.mem_flatMap.2 ⟨e, he, hl⟩))
  rw [reread, he]

namespace Store.Document

/-! ## Fields -/

@[simp]
theorem field?_nil (key : Text) : (Json.obj []).field? key = none := rfl

@[simp]
theorem field?_cons (key k : Text) (j : Json) (fields : List (Text × Json)) :
    (Json.obj ((k, j) :: fields)).field? key =
      if key = k then some j else (Json.obj fields).field? key := by
  rw [Json.field?, List.lookup_cons]
  by_cases h : key = k
  · rw [if_pos h, beq_iff_eq.2 h]
  · rw [if_neg h, beq_eq_false_iff_ne.2 h]; rfl

section Fields

variable {α β : Type} (key k : Text) (fields : List (Option (Text × Json)))

@[simp]
theorem field?_object_nil : (object []).field? key = none := rfl

theorem field?_object_cons (f : Option (Text × Json)) :
    (object (f :: fields)).field? key =
      (f.bind fun p => if key = p.1 then some p.2 else none).or ((object fields).field? key) := by
  cases f with
  | none => rfl
  | some p =>
    rw [Option.bind_some]
    exact (field?_cons key p.1 p.2 _).trans (by split <;> rfl)

@[simp]
theorem field?_always (j : Json) :
    (object (always k j :: fields)).field? key =
      if key = k then some j else (object fields).field? key := by
  rw [field?_object_cons, always, Option.bind_some]
  split <;> rfl

@[simp]
theorem field?_whenSome (f : α → Json) (a : Option α) :
    (object (whenSome k f a :: fields)).field? key =
      if key = k then (a.map f).or ((object fields).field? key)
      else (object fields).field? key := by
  rw [field?_object_cons, whenSome]
  cases a <;> split <;> simp_all

@[simp]
theorem field?_whenItems (f : α → Json) (as : List α) :
    (object (whenItems k f as :: fields)).field? key =
      if key = k ∧ as ≠ [] then some (.arr (as.map f)) else (object fields).field? key := by
  rw [field?_object_cons]
  cases as with
  | nil => simp [whenItems]
  | cons a as => by_cases h : key = k <;> simp [whenItems, h]

@[simp]
theorem field?_whenText (t : Text) :
    (object (whenText k t :: fields)).field? key =
      if key = k ∧ t ≠ "" then some (.str t) else (object fields).field? key := by
  rw [field?_object_cons, whenText]
  by_cases ht : t = "" <;> by_cases h : key = k <;> simp [ht, h]

/-! ## Reading fields -/

variable {key} {j : Json}

theorem required_of_field? {f : Json → Option β} {v : Json} (h : j.field? key = some v) :
    required key f j = f v := by
  rw [required, h, Option.bind_some]

theorem optional_of_field? {f : Json → Option α} {g : α → Json} {a : Option α}
    (h : j.field? key = a.map g) (hnull : ∀ x, g x ≠ .null) (hf : ∀ x, f (g x) = some x) :
    optional key f j = some a := by
  rw [optional, h]
  cases a with
  | none => rfl
  | some x =>
    rw [Option.map_some]
    split
    · next hx => cases hx
    · next hx => exact absurd (Option.some.inj hx) (hnull x)
    · next v _ hx => rw [← Option.some.inj hx, hf x]; rfl

theorem each_map {f : Json → Option β} {g : α → Json} {back : α → β}
    (hf : ∀ x, f (g x) = some (back x)) (as : List α) : each f (as.map g) = some (as.map back) := by
  induction as with
  | nil => rfl
  | cons a as ih => simp [each, hf a, ih]

theorem items_of_field? {f : Json → Option β} {g : α → Json} {back : α → β} {as : List α}
    (h : j.field? key = if as ≠ [] then some (.arr (as.map g)) else none)
    (hf : ∀ x, f (g x) = some (back x)) : items key f j = some (as.map back) := by
  rw [items, h]
  by_cases has : as = []
  · simp [has]
  · simp [has, each_map hf as]

theorem textOrEmpty_of_field? {t : Text}
    (h : j.field? key = if t ≠ "" then some (.str t) else none) : textOrEmpty key j = some t := by
  rw [textOrEmpty, h]
  by_cases ht : t = "" <;> simp [ht, toText]

end Fields

/-! ## Reading back -/

theorem toLocation_ofLocation (l : Location) : toLocation (ofLocation l) = some l.reread := by
  simp [toLocation, ofLocation, required, Text.ofString_inj, toText, toInt, Location.reread]

theorem toNote_ofNote (n : Note) : toNote (ofNote n) = some n := by
  have h : toNote (ofNote n) = do
      let description ← textOrEmpty "description" (ofNote n)
      let vulnerabilities ← textOrEmpty "potential_vulnerabilities" (ofNote n)
      let controlFlow ← textOrEmpty "control_flow" (ofNote n)
      return ⟨description, vulnerabilities, controlFlow⟩ := rfl
  have hd : textOrEmpty "description" (ofNote n) = some n.description :=
    textOrEmpty_of_field? (by simp [ofNote, Text.ofString_inj])
  have hv : textOrEmpty "potential_vulnerabilities" (ofNote n) = some n.vulnerabilities :=
    textOrEmpty_of_field? (by simp [ofNote, Text.ofString_inj])
  have hc : textOrEmpty "control_flow" (ofNote n) = some n.controlFlow :=
    textOrEmpty_of_field? (by simp [ofNote, Text.ofString_inj])
  rw [h, hd, hv, hc]
  rfl

section Reading

variable [Library]

theorem toSymbol_ofSymbol (s : Symbol) : toSymbol (ofSymbol s) = some s := by
  cases s with
  | function name =>
    simp [toSymbol, ofSymbol, required, Text.ofString_inj, toText]
  | method name className =>
    cases className <;>
      simp [toSymbol, ofSymbol, required, toClass, Text.ofString_inj, toText, ofText?]

theorem toSite_ofSite {role : Text} (h : role ≠ "symbol") (s : Site) :
    toSite role (ofSite role s) = some s.reread := by
  simp [toSite, ofSite, required, h, toSymbol_ofSymbol, toLocation_ofLocation, Site.reread]

theorem toDefinition_ofDefinition (d : Definition) :
    toDefinition (ofDefinition d) = some d.reread := by
  have hl : required "location" toLocation (ofDefinition d) = some d.location.reread := by
    rw [required_of_field? (v := ofLocation d.location) (by simp [ofDefinition]),
      toLocation_ofLocation]
  have hd : optional "doc" toText (ofDefinition d) = some d.doc :=
    optional_of_field? (g := Json.str) (by simp [ofDefinition, Text.ofString_inj]) nofun
      fun _ => rfl
  have hc : items "calls" (toSite "reference") (ofDefinition d) = some (d.calls.map Site.reread) :=
    items_of_field? (by simp [ofDefinition, Text.ofString_inj])
      (toSite_ofSite (by simp [Text.ofString_inj]))
  have hn : optional "llm_note" toNote (ofDefinition d) = some d.note :=
    optional_of_field? (g := ofNote) (by simp [ofDefinition, Text.ofString_inj])
      (fun _ => show Json.obj _ ≠ .null from nofun) toNote_ofNote
  have hs : optional "source_code" toText (ofDefinition d) = some d.source :=
    optional_of_field? (g := Json.str) (by simp [ofDefinition, Text.ofString_inj]) nofun
      fun _ => rfl
  rw [toDefinition, hl, hd, hc, hn, hs]
  rfl

theorem toReference_ofReference (r : Reference) : toReference (ofReference r) = some r.reread := by
  have hl : required "location" toLocation (ofReference r) = some r.location.reread := by
    rw [required_of_field? (v := ofLocation r.location) (by simp [ofReference]),
      toLocation_ofLocation]
  have hc : items "called_by" (toSite "definition") (ofReference r) =
      some (r.callers.map Site.reread) :=
    items_of_field? (by simp [ofReference, Text.ofString_inj])
      (toSite_ofSite (by simp [Text.ofString_inj]))
  rw [toReference, hl, hc]
  rfl

theorem toInfo_ofInfo (i : Info) : toInfo (ofInfo i) = some i.reread := by
  have h : toInfo (ofInfo i) = do
      let definitions ← items "definitions" toDefinition (ofInfo i)
      let references ← items "references" toReference (ofInfo i)
      return ⟨definitions, references⟩ := rfl
  have hd : items "definitions" toDefinition (ofInfo i) =
      some (i.definitions.map Definition.reread) :=
    items_of_field? (by simp [ofInfo, Text.ofString_inj]) toDefinition_ofDefinition
  have hr : items "references" toReference (ofInfo i) =
      some (i.references.map Reference.reread) :=
    items_of_field? (by simp [ofInfo, Text.ofString_inj]) toReference_ofReference
  rw [h, hd, hr]
  rfl

theorem toEntry_ofEntry (e : Symbol × Info) : toEntry (ofEntry e) = some (e.1, e.2.reread) := by
  simp [toEntry, ofEntry, required, Text.ofString_inj, toSymbol_ofSymbol, toInfo_ofInfo]

theorem toSnapshot_ofSnapshot {s : Snapshot} (h : s.metadata = none) :
    toSnapshot (ofSnapshot s) = some s.reread := by
  have hk : required "type" toText (ofSnapshot s) = some s.kind := by
    rw [required_of_field? (v := .str s.kind) (by simp [ofSnapshot])]
    rfl
  have he : items "data" toEntry (ofSnapshot s) =
      some (s.entries.map fun e => (e.1, e.2.reread)) :=
    items_of_field? (by simp [ofSnapshot, Text.ofString_inj]) toEntry_ofEntry
  have hm : optional "metadata" toObject (ofSnapshot s) = some none := by
    rw [optional, show (ofSnapshot s).field? "metadata" = none by
      simp [ofSnapshot, h, Text.ofString_inj]]
  rw [toSnapshot, hk, he, hm, ← h]
  rfl

end Reading

/-! ## Legible documents -/

/-- A document is legible within all limits that allow so many digits and so many levels. -/
def Within (digits : Option Nat) (levels : Nat) (j : Json) : Prop :=
  ∀ limits : Json.Limits, limits.digits = digits → (∀ d ∈ limits.depth, levels ≤ d) →
    Json.Legible limits j

section Within

variable {α : Type} {digits : Option Nat} {levels : Nat} {key : Text} {f : α → Json}

theorem enter_ok {limits : Json.Limits} (h : ∀ d ∈ limits.depth, levels + 1 ≤ d) :
    ∃ inner, limits.enter = (.ok inner : Except (Json.ReadError Empty) Json.Limits) ∧
      inner.digits = limits.digits ∧ ∀ d ∈ inner.depth, levels ≤ d := by
  obtain ⟨digits, depth⟩ := limits
  cases depth with
  | none => exact ⟨_, rfl, rfl, by simp⟩
  | some n =>
    have hn : levels + 1 ≤ n := h n rfl
    obtain ⟨m, rfl⟩ : ∃ m, n = m + 1 := ⟨n - 1, by omega⟩
    refine ⟨_, rfl, rfl, fun d hd => ?_⟩
    cases hd
    omega

theorem within_null : Within digits levels .null := fun _ _ _ => .null

theorem within_str (t : Text) : Within digits levels (.str t) := fun _ _ _ => .str t

theorem within_int {n : Int} (h : ∀ m ∈ digits, (Text.numeral n.natAbs).length ≤ m) :
    Within digits levels (.int n) := by
  intro limits hd _
  refine .int n ?_
  rw [Json.Limits.admits, hd]
  cases digits with
  | none => rfl
  | some m => exact decide_eq_true (h m rfl)

theorem within_arr {items : List Json} (h : ∀ j ∈ items, Within digits levels j) :
    Within digits (levels + 1) (.arr items) := by
  intro limits hd hl
  obtain ⟨inner, henter, hdigits, hdepth⟩ := enter_ok hl
  exact .arr items henter fun j hj => h j hj inner (hdigits.trans hd) hdepth

theorem within_obj {fields : List (Text × Json)} (keys : (fields.map Prod.fst).Nodup)
    (h : ∀ f ∈ fields, Within digits levels f.2) : Within digits (levels + 1) (.obj fields) := by
  intro limits hd hl
  obtain ⟨inner, henter, hdigits, hdepth⟩ := enter_ok hl
  exact .obj fields henter keys fun f hf => h f hf inner (hdigits.trans hd) hdepth

theorem Within.mono {j : Json} {more : Nat} (h : Within digits levels j) (hle : levels ≤ more) :
    Within digits more j :=
  fun limits hd hl => h limits hd fun d hm => Nat.le_trans hle (hl d hm)

/-- A field has a key, if it is there, and a legible value. -/
def Field (digits : Option Nat) (levels : Nat) (key : Text) (f : Option (Text × Json)) : Prop :=
  ∀ p ∈ f, p.1 = key ∧ Within digits levels p.2

theorem Field.always {j : Json} (h : Within digits levels j) :
    Field digits levels key (always key j) := by
  intro p hp
  cases Option.some.inj hp
  exact ⟨rfl, h⟩

theorem Field.whenSome {a : Option α} (h : ∀ x ∈ a, Within digits levels (f x)) :
    Field digits levels key (whenSome key f a) := by
  intro p hp
  obtain ⟨x, hx, rfl⟩ := Option.map_eq_some_iff.1 hp
  exact ⟨rfl, h x hx⟩

theorem Field.whenItems {as : List α} (h : ∀ a ∈ as, Within digits levels (f a)) :
    Field digits (levels + 1) key (whenItems key f as) := by
  cases as with
  | nil => nofun
  | cons a as =>
    intro p hp
    cases Option.some.inj hp
    refine ⟨rfl, within_arr fun j hj => ?_⟩
    obtain ⟨x, hx, rfl⟩ := List.mem_map.1 hj
    exact h x hx

theorem Field.whenText (t : Text) : Field digits levels key (whenText key t) := by
  intro p hp
  unfold Document.whenText at hp
  split at hp
  · cases hp
  · cases hp; exact ⟨rfl, within_str t⟩

/-- An object is legible if its fields are, where every field has a key of its own. -/
theorem within_object (keys : List Text) {fields : List (Option (Text × Json))}
    (hkeys : keys.Nodup) (h : List.Forall₂ (Field digits levels) keys fields) :
    Within digits (levels + 1) (object fields) := by
  have hsub : ((fields.filterMap id).map Prod.fst).Sublist keys := by
    clear hkeys
    induction h with
    | nil => exact .slnil
    | @cons k f keys fields hf _ ih =>
      cases f with
      | none => exact .cons k ih
      | some p => rw [← (hf p rfl).1]; exact .cons_cons p.1 ih
  refine within_obj (hkeys.sublist hsub) fun p hp => ?_
  obtain ⟨f, hf, hfp⟩ := List.mem_filterMap.1 hp
  obtain ⟨k, hk⟩ : ∃ k, Field digits levels k f := by
    clear hkeys hsub hp
    induction h with
    | nil => cases hf
    | cons hfield _ ih => exact (List.mem_cons.1 hf).elim (fun e => ⟨_, e ▸ hfield⟩) ih
  exact (hk p hfp).2

end Within

section Levels

variable {digits : Option Nat}

theorem within_ofLocation {l : Location} (h : l.Fits digits) : Within digits 1 (ofLocation l) := by
  simp only [Location.Fits, Location.numbers, List.forall_mem_cons] at h
  obtain ⟨hsl, hsc, hel, hec, hsb, heb, -⟩ := h
  refine within_obj (by simp [Text.ofString_inj]) ?_
  simp only [List.forall_mem_cons, List.not_mem_nil, false_imp_iff, implies_true, and_true]
  exact ⟨within_str _, within_int hsl, within_int hsc, within_int hel, within_int hec,
    within_int hsb, within_int heb⟩

theorem within_ofSymbol (s : Symbol) : Within digits 1 (ofSymbol s) := by
  cases s with
  | function name =>
    refine within_obj (by simp [Text.ofString_inj]) ?_
    simp only [List.forall_mem_cons, List.not_mem_nil, false_imp_iff, implies_true, and_true]
    exact ⟨within_str _, within_str _⟩
  | method name className =>
    refine within_obj (by simp [Text.ofString_inj]) ?_
    simp only [List.forall_mem_cons, List.not_mem_nil, false_imp_iff, implies_true, and_true]
    refine ⟨within_str _, ?_, within_str _⟩
    cases className with
    | none => exact within_null
    | some name => exact within_str name

theorem within_ofSite {role : Text} (hrole : role ≠ "symbol") {s : Site}
    (h : s.location.Fits digits) : Within digits 3 (ofSite role s) := by
  refine within_obj (by simpa using hrole.symm) ?_
  simp only [List.forall_mem_cons, List.not_mem_nil, false_imp_iff, implies_true, and_true]
  refine ⟨(within_ofSymbol s.symbol).mono (by omega), within_obj (by simp) ?_⟩
  simpa using within_ofLocation h

theorem within_ofNote (n : Note) : Within digits 1 (ofNote n) :=
  within_object ["description", "potential_vulnerabilities", "control_flow"]
    (by simp [Text.ofString_inj])
    (.cons (.whenText _) (.cons (.whenText _) (.cons (.whenText _) .nil)))

theorem within_ofDefinition {d : Definition} (h : ∀ l ∈ d.locations, l.Fits digits) :
    Within digits 5 (ofDefinition d) := by
  have hl : Within digits 4 (ofLocation d.location) :=
    (within_ofLocation (h _ (.head _))).mono (by omega)
  have hc : ∀ c ∈ d.calls, Within digits 3 (ofSite "reference" c) := fun c hc =>
    within_ofSite (by simp [Text.ofString_inj]) (h _ (.tail _ (List.mem_map_of_mem hc)))
  exact within_object ["location", "doc", "calls", "llm_note", "source_code"]
    (by simp [Text.ofString_inj])
    (.cons (.always hl) (.cons (.whenSome fun t _ => within_str t) (.cons (.whenItems hc)
      (.cons (.whenSome fun n _ => (within_ofNote n).mono (by omega))
        (.cons (.whenSome fun t _ => within_str t) .nil)))))

theorem within_ofReference {r : Reference} (h : ∀ l ∈ r.locations, l.Fits digits) :
    Within digits 5 (ofReference r) := by
  have hl : Within digits 4 (ofLocation r.location) :=
    (within_ofLocation (h _ (.head _))).mono (by omega)
  have hc : ∀ c ∈ r.callers, Within digits 3 (ofSite "definition" c) := fun c hc =>
    within_ofSite (by simp [Text.ofString_inj]) (h _ (.tail _ (List.mem_map_of_mem hc)))
  exact within_object ["location", "called_by"] (by simp [Text.ofString_inj])
    (.cons (.always hl) (.cons (.whenItems hc) .nil))

theorem within_ofInfo {i : Info} (h : ∀ l ∈ i.locations, l.Fits digits) :
    Within digits 7 (ofInfo i) := by
  have hd : ∀ d ∈ i.definitions, Within digits 5 (ofDefinition d) := fun d hd =>
    within_ofDefinition fun l hl =>
      h l (List.mem_append_left _ (List.mem_flatMap.2 ⟨d, hd, hl⟩))
  have hr : ∀ r ∈ i.references, Within digits 5 (ofReference r) := fun r hr =>
    within_ofReference fun l hl =>
      h l (List.mem_append_right _ (List.mem_flatMap.2 ⟨r, hr, hl⟩))
  exact within_object ["definitions", "references"] (by simp [Text.ofString_inj])
    (.cons (.whenItems hd) (.cons (.whenItems hr) .nil))

theorem within_ofEntry {e : Symbol × Info} (h : ∀ l ∈ e.2.locations, l.Fits digits) :
    Within digits 8 (ofEntry e) := by
  refine within_obj (by simp [Text.ofString_inj]) ?_
  simp only [List.forall_mem_cons, List.not_mem_nil, false_imp_iff, implies_true, and_true]
  exact ⟨(within_ofSymbol e.1).mono (by omega), within_ofInfo h⟩

/-- The document of a snapshot has ten levels. -/
theorem within_ofSnapshot {s : Snapshot} (h : s.metadata = none)
    (hfits : ∀ l ∈ s.locations, l.Fits digits) : Within digits 10 (ofSnapshot s) := by
  have he : ∀ e ∈ s.entries, Within digits 8 (ofEntry e) := fun e he =>
    within_ofEntry fun l hl => hfits l (List.mem_flatMap.2 ⟨e, he, hl⟩)
  refine within_object ["type", "data", "metadata"] (by simp [Text.ofString_inj])
    (.cons (.always (within_str _)) (.cons (.whenItems he) (.cons ?_ .nil)))
  rw [h]
  exact nofun

end Levels

/-! ## Halves of pairs -/

section Halves

variable {α : Type} (key : String)

theorem hasHalf_arr (items : List Json) : (Json.arr items).hasHalf = items.any Json.hasHalf := by
  have h : Json.anyHalf items = items.any Json.hasHalf := by
    induction items with
    | nil => rfl
    | cons j js ih => rw [Json.anyHalf, ih, List.any_cons]
  rw [Json.hasHalf, h]

/-- Whether the key or the value of a field that is there holds half of a pair. -/
def fieldHalf (f : Option (Text × Json)) : Bool := f.any fun p => p.1.hasHalf || p.2.hasHalf

theorem hasHalf_obj (fields : List (Text × Json)) :
    (Json.obj fields).hasHalf = fields.any fun p => p.1.hasHalf || p.2.hasHalf := by
  have h : Json.anyFieldHalf fields = fields.any fun p => p.1.hasHalf || p.2.hasHalf := by
    induction fields with
    | nil => rfl
    | cons p fields ih => rw [Json.anyFieldHalf, ih, List.any_cons]
  rw [Json.hasHalf, h]

theorem hasHalf_object (fields : List (Option (Text × Json))) :
    (object fields).hasHalf = fields.any fieldHalf := by
  rw [object, hasHalf_obj, List.any_filterMap]
  rfl

@[simp]
theorem fieldHalf_always (j : Json) : fieldHalf (always key j) = j.hasHalf := by
  simp [fieldHalf, always, Text.hasHalf_ofString]

@[simp]
theorem fieldHalf_whenSome (f : α → Json) (a : Option α) :
    fieldHalf (whenSome key f a) = a.toList.any fun x => (f x).hasHalf := by
  cases a <;> simp [fieldHalf, whenSome, Text.hasHalf_ofString]

@[simp]
theorem fieldHalf_whenItems (f : α → Json) (as : List α) :
    fieldHalf (whenItems key f as) = as.any fun x => (f x).hasHalf := by
  cases as with
  | nil => rfl
  | cons a as => simp [fieldHalf, whenItems, Text.hasHalf_ofString, hasHalf_arr, Function.comp_def]

@[simp]
theorem fieldHalf_whenText (t : Text) : fieldHalf (whenText key t) = t.hasHalf := by
  by_cases ht : t = "" <;> simp [fieldHalf, whenText, ht, Json.hasHalf, Text.hasHalf_ofString]

end Halves

theorem hasHalf_ofLocation (l : Location) : (ofLocation l).hasHalf = l.file.toText.hasHalf := by
  simp [ofLocation, hasHalf_obj, Json.hasHalf, Text.hasHalf_ofString]

theorem hasHalf_ofSymbol (s : Symbol) : (ofSymbol s).hasHalf = s.texts.any Text.hasHalf := by
  cases s with
  | function name => simp [ofSymbol, Symbol.texts, hasHalf_obj, Json.hasHalf, Text.hasHalf_ofString]
  | method name className =>
    cases className <;>
      simp [ofSymbol, Symbol.texts, ofText?, hasHalf_obj, Json.hasHalf, Text.hasHalf_ofString]

theorem hasHalf_ofSite (role : String) (s : Site) :
    (ofSite role s).hasHalf = s.texts.any Text.hasHalf := by
  simp [ofSite, Site.texts, hasHalf_obj, hasHalf_ofSymbol, hasHalf_ofLocation,
    Text.hasHalf_ofString]

theorem hasHalf_ofNote (n : Note) : (ofNote n).hasHalf = n.texts.any Text.hasHalf := by
  simp [ofNote, Note.texts, hasHalf_object]

theorem hasHalf_ofDefinition (d : Definition) :
    (ofDefinition d).hasHalf = d.texts.any Text.hasHalf := by
  simp [ofDefinition, Definition.texts, hasHalf_object, hasHalf_ofLocation, hasHalf_ofSite,
    hasHalf_ofNote, Json.hasHalf, List.any_flatMap]

theorem hasHalf_ofReference (r : Reference) :
    (ofReference r).hasHalf = r.texts.any Text.hasHalf := by
  simp [ofReference, Reference.texts, hasHalf_object, hasHalf_ofLocation, hasHalf_ofSite,
    List.any_flatMap]

theorem hasHalf_ofInfo (i : Info) : (ofInfo i).hasHalf = i.texts.any Text.hasHalf := by
  simp [ofInfo, Info.texts, hasHalf_object, hasHalf_ofDefinition, hasHalf_ofReference,
    List.any_flatMap]

theorem hasHalf_ofEntry (e : Symbol × Info) :
    (ofEntry e).hasHalf = (e.1.texts ++ e.2.texts).any Text.hasHalf := by
  simp [ofEntry, hasHalf_obj, hasHalf_ofSymbol, hasHalf_ofInfo, Text.hasHalf_ofString]

theorem hasHalf_ofSnapshot {s : Snapshot} (h : s.metadata = none) :
    (ofSnapshot s).hasHalf = s.texts.any Text.hasHalf := by
  simp [ofSnapshot, Snapshot.texts, hasHalf_object, h, hasHalf_ofEntry, Json.hasHalf,
    List.any_flatMap]

/-- A snapshot without metadata can be encoded unless one of its texts holds half of a pair. -/
theorem encode?_eq {s : Snapshot} (h : s.metadata = none) :
    encode? s = if s.texts.any Text.hasHalf then none else some (render s) := by
  rw [encode?, Json.encode?, hasHalf_ofSnapshot h, render]

/-! ## Texts -/

/-- The text of a snapshot is read as that snapshot within all limits that allow its numbers and
ten levels, with every place as its text names it. -/
theorem parseWithin_render [Library] {s : Snapshot} (h : s.metadata = none) {limits : Json.Limits}
    (hdepth : ∀ d ∈ limits.depth, 10 ≤ d) (hfits : ∀ l ∈ s.locations, l.Fits limits.digits) :
    parseWithin limits (render s) = some s.reread := by
  have hlegible := within_ofSnapshot h hfits limits rfl hdepth
  rw [parseWithin, render, Json.parseWithin_render hlegible, Option.bind_some,
    toSnapshot_ofSnapshot h]

/-- The text of a snapshot is read as that snapshot, with every place as its text names it. -/
theorem parse_render [Library] {s : Snapshot} (h : s.metadata = none) :
    parse (render s) = some s.reread := by
  have hnone : parseWithin .none (render s) = some s.reread :=
    parseWithin_render h nofun fun _ _ _ _ => nofun
  exact hnone

end Store.Document

end CallAtlas
